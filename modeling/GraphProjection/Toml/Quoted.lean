import GraphProjection.Value.Reader

/-!
# Strings of a configuration document

TOML has four ways to write a string: between quotes, with escapes; between apostrophes, where
every character stands for itself; and each of these on several lines between three marks.  On
several lines, a line break right behind the opening marks is left out, a pair of carriage
return and line feed counts as one line feed, a backslash at the end of a line takes away all the
white space up to the next visible character, and one or two further marks may stand in front
of the closing ones.

The readers take the text behind the opening mark and give the string and the text behind the
closing one.
-/

namespace GraphProjection.Toml

/-- Whether a character may stand in a comment or, unless it is a mark, in a string. -/
def isPlain (c : Char) : Bool := c == '\t' || 0x20 ≤ c.toNat && c.toNat ≤ 0x7E || 0x80 ≤ c.toNat

/-- The escapes that stand for one character. -/
def unescape? : Char → Option Char
  | '"' => some '"'
  | '\\' => some '\\'
  | 'b' => some '\x08'
  | 'f' => some '\x0c'
  | 'n' => some '\n'
  | 'r' => some '\r'
  | 't' => some '\t'
  | _ => none

/-- The character of a hexadecimal escape; half of a pair of code units is none. -/
def scalar? (digits : List Char) : Option Char :=
  (Value.hexNumber? digits).bind fun n =>
    if h : n.isValidChar then some (Char.ofNatAux n h) else none

/-- A string on one line, with escapes. -/
def readBasic : List Char → Option (List Char × List Char)
  | '"' :: rest => some ([], rest)
  | '\\' :: 'u' :: a :: b :: c :: d :: rest => do
    let e ← scalar? [a, b, c, d]
    let (s, rest) ← readBasic rest
    some (e :: s, rest)
  | '\\' :: 'U' :: a :: b :: c :: d :: e :: f :: g :: h :: rest => do
    let e ← scalar? [a, b, c, d, e, f, g, h]
    let (s, rest) ← readBasic rest
    some (e :: s, rest)
  | '\\' :: c :: rest => do
    let e ← unescape? c
    let (s, rest) ← readBasic rest
    some (e :: s, rest)
  | c :: rest =>
    if isPlain c then do
      let (s, rest) ← readBasic rest
      some (c :: s, rest)
    else none
  | [] => none

/-- Whether only blanks stand before the next line break. -/
def endsLine : List Char → Bool
  | ' ' :: rest | '\t' :: rest => endsLine rest
  | '\n' :: _ | '\r' :: '\n' :: _ => true
  | _ => false

/-- A string on several lines, with escapes; while `folding`, white space is left out. -/
def readBasicLines : Bool → List Char → Option (List Char × List Char)
  | _, '"' :: '"' :: '"' :: '"' :: '"' :: rest => some (['"', '"'], rest)
  | _, '"' :: '"' :: '"' :: '"' :: rest => some (['"'], rest)
  | _, '"' :: '"' :: '"' :: rest => some ([], rest)
  | true, ' ' :: rest | true, '\t' :: rest | true, '\n' :: rest => readBasicLines true rest
  | true, '\r' :: '\n' :: rest => readBasicLines true rest
  | false, '\r' :: '\n' :: rest | false, '\n' :: rest => do
    let (s, rest) ← readBasicLines false rest
    some ('\n' :: s, rest)
  | _, '\\' :: 'u' :: a :: b :: c :: d :: rest => do
    let e ← scalar? [a, b, c, d]
    let (s, rest) ← readBasicLines false rest
    some (e :: s, rest)
  | _, '\\' :: 'U' :: a :: b :: c :: d :: e :: f :: g :: h :: rest => do
    let e ← scalar? [a, b, c, d, e, f, g, h]
    let (s, rest) ← readBasicLines false rest
    some (e :: s, rest)
  | _, '\\' :: c :: rest =>
    if endsLine (c :: rest) then readBasicLines true rest
    else do
      let e ← unescape? c
      let (s, rest) ← readBasicLines false rest
      some (e :: s, rest)
  | _, c :: rest =>
    if isPlain c then do
      let (s, rest) ← readBasicLines false rest
      some (c :: s, rest)
    else none
  | _, [] => none

/-- A string on one line whose characters stand for themselves. -/
def readLiteral : List Char → Option (List Char × List Char)
  | '\x27' :: rest => some ([], rest)
  | c :: rest =>
    if isPlain c then do
      let (s, rest) ← readLiteral rest
      some (c :: s, rest)
    else none
  | [] => none

/-- A string on several lines whose characters stand for themselves. -/
def readLiteralLines : List Char → Option (List Char × List Char)
  | '\x27' :: '\x27' :: '\x27' :: '\x27' :: '\x27' :: rest => some (['\x27', '\x27'], rest)
  | '\x27' :: '\x27' :: '\x27' :: '\x27' :: rest => some (['\x27'], rest)
  | '\x27' :: '\x27' :: '\x27' :: rest => some ([], rest)
  | '\r' :: '\n' :: rest | '\n' :: rest => do
    let (s, rest) ← readLiteralLines rest
    some ('\n' :: s, rest)
  | c :: rest =>
    if isPlain c then do
      let (s, rest) ← readLiteralLines rest
      some (c :: s, rest)
    else none
  | [] => none

/-- The text behind a line break, if it starts with one. -/
def dropLineBreak : List Char → List Char
  | '\r' :: '\n' :: rest | '\n' :: rest => rest
  | rest => rest

/-- A string of any of the four ways, with its opening mark still in front. -/
def readQuoted? : List Char → Option (List Char × List Char)
  | '"' :: '"' :: '"' :: rest => readBasicLines false (dropLineBreak rest)
  | '"' :: rest => readBasic rest
  | '\x27' :: '\x27' :: '\x27' :: rest => readLiteralLines (dropLineBreak rest)
  | '\x27' :: rest => readLiteral rest
  | _ => none

end GraphProjection.Toml
