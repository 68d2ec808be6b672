import GraphProjection.Document
import GraphProjection.Text.Blank
import GraphProjection.Text.Name
import GraphProjection.Value.Reader

/-!
# The tokens of a document

Blanks, line breaks, commas, byte order marks and comments stand between tokens and mean nothing.
A number has no needless zero in front and no letter, underscore, digit or point behind it.  A
string stays on one line; a block string, between three quotes, spans lines, and loses the
indentation that its lines but the first have in common as well as the blank lines at its ends.
Indentation and blank lines are made of any white space.

Every token carries the number of bytes in front of it.
-/

namespace GraphProjection

/-- The smallest parts of a document. -/
inductive Lexeme where
  | mark (c : Char)
  | dots
  | name (text : String)
  | int (value : Int)
  | float (value : Decimal)
  | string (value : String)
deriving DecidableEq, Repr

/-- A lexeme and the number of bytes in front of it. -/
structure Token where
  lexeme : Lexeme
  offset : Nat
deriving DecidableEq, Repr

namespace Lexeme

/-- The characters that mean nothing between tokens. -/
def isIgnored (c : Char) : Bool :=
  c == ' ' || c == '\t' || c == '\n' || c == '\r' || c == '\x0c' || c == ',' || c == '\ufeff'

/-- The characters that are tokens by themselves. -/
def isMark (c : Char) : Bool := "!$&():=@[]\x7b|\x7d".toList.contains c

/-! ## Numbers -/

/-- Whether a number may end in front of a text. -/
def endsNumber : List Char → Bool
  | [] => true
  | c :: _ => !(Text.isNamePart c || c == '.')

/-- A number, and the text behind it. -/
def readNumber? (cs : List Char) : Option (Lexeme × List Char) := do
  let (negative, cs) := match cs with
    | '-' :: rest => (true, rest)
    | rest => (false, rest)
  let (whole, cs) := Value.spanDigits cs
  if whole.isEmpty || whole.length > 1 && whole.head? == some '0' then none
  else
    let (fraction, cs) ← Value.readFraction cs
    let (exponent, cs) ← Value.readExponent cs
    if !endsNumber cs then none
    else if fraction.isEmpty && exponent.isNone then
      let n : Int := Nat.ofDigitChars 10 whole 0
      some (.int (if negative then -n else n), cs)
    else
      let digits := Nat.ofDigitChars 10 (whole ++ fraction) 0
      some (.float ⟨negative, digits, exponent.getD 0 - fraction.length⟩, cs)

/-! ## Strings -/

/-- Whether a character may stand in a string. -/
def isStringPart (c : Char) : Bool := c == '\t' || 0x20 ≤ c.toNat && c.toNat ≤ 0xFFFF

/-- The character of four hexadecimal digits; half of a pair of code units is none. -/
def unicode? (digits : List Char) : Option Char :=
  (Value.hexNumber? digits).bind fun n =>
    if Value.isHighUnit n || Value.isLowUnit n then none else some (Char.ofNat n)

/-- The escapes that stand for one character: those of a JSON text, save that `b` is the control
character U+0010. -/
def unescape? : Char → Option Char
  | 'b' => some '\x10'
  | c => Value.unescape? c

/-- The rest of a string behind its opening quote, and the text behind it. -/
def readString : List Char → Option (List Char × List Char)
  | '"' :: rest => some ([], rest)
  | '\\' :: 'u' :: a :: b :: c :: d :: rest => do
    let e ← unicode? [a, b, c, d]
    let (s, rest) ← readString rest
    some (e :: s, rest)
  | '\\' :: c :: rest => do
    let e ← unescape? c
    let (s, rest) ← readString rest
    some (e :: s, rest)
  | c :: rest =>
    if isStringPart c then do
      let (s, rest) ← readString rest
      some (c :: s, rest)
    else none
  | [] => none

/-- The rest of a block string behind its opening quotes, as it is written, and the text behind
it. -/
def readBlock : List Char → Option (List Char × List Char)
  | '"' :: '"' :: '"' :: rest => some ([], rest)
  | '\\' :: '"' :: '"' :: '"' :: rest => do
    let (s, rest) ← readBlock rest
    some ('"' :: '"' :: '"' :: s, rest)
  | c :: rest =>
    if isStringPart c || c == '\n' || c == '\r' then do
      let (s, rest) ← readBlock rest
      some (c :: s, rest)
    else none
  | [] => none

/-- The lines of a text.  A line ends at a line feed, or at a carriage return and a line feed; a
carriage return that stands alone is part of its line. -/
def lines : List Char → List (List Char)
  | [] => [[]]
  | '\r' :: '\n' :: rest | '\n' :: rest => [] :: lines rest
  | c :: rest =>
    match lines rest with
    | line :: more => (c :: line) :: more
    | [] => [[c]]

/-- The indentation of a line, in bytes. -/
def indent (line : List Char) : Nat := Location.bytes (line.takeWhile Text.isBlank)

/-- A line without so many bytes of its indentation, or without all of it where that is less. -/
def unindent : Nat → List Char → List Char
  | _, [] => []
  | n, c :: rest =>
    if Text.isBlank c ∧ c.utf8Size ≤ n then unindent (n - c.utf8Size) rest else c :: rest

/-- The least indentation of the lines that are not blank. -/
def commonIndent (lines : List (List Char)) : Nat :=
  (((lines.filter (!·.all Text.isBlank)).map indent).min?).getD 0

/-- The lines without the blank ones at either end. -/
def trimLines (lines : List (List Char)) : List (List Char) :=
  let dropBlank (lines : List (List Char)) := lines.dropWhile (·.all Text.isBlank)
  (dropBlank (dropBlank lines).reverse).reverse

/-- The value of a block string.  The first line stands behind the quotes, so its indentation
does not count and stays. -/
def blockValue (written : List Char) : List Char :=
  match lines written with
  | [] => []
  | first :: more =>
    List.intercalate ['\n'] (trimLines (first :: more.map (unindent (commonIndent more))))

/-! ## Tokens -/

/-- The lexeme at the start of a text, and the text behind it. -/
def read? : List Char → Option (Lexeme × List Char)
  | '.' :: '.' :: '.' :: rest => some (.dots, rest)
  | '"' :: '"' :: '"' :: rest =>
    (readBlock rest).map fun (s, rest) => (.string (String.ofList (blockValue s)), rest)
  | '"' :: rest => (readString rest).map fun (s, rest) => (.string (String.ofList s), rest)
  | c :: rest =>
    if isMark c then some (.mark c, rest)
    else if Text.isNameStart c then
      some (.name (String.ofList (c :: rest.takeWhile Text.isNamePart)),
        rest.dropWhile Text.isNamePart)
    else readNumber? (c :: rest)
  | [] => none

end Lexeme

namespace Token

/-- The text behind a comment, up to its line break. -/
def skipComment (cs : List Char) : List Char := cs.dropWhile fun c => c != '\n' && c != '\r'

/-- The tokens of what is left of a text of so many bytes.  Each turn takes a character at
least. -/
def scanRest (size : Nat) : Nat → List Char → Option (List Token)
  | _, [] => some []
  | 0, _ => none
  | fuel + 1, c :: rest =>
    if Lexeme.isIgnored c then scanRest size fuel rest
    else if c = '#' then scanRest size fuel (skipComment rest)
    else do
      let (lexeme, behind) ← Lexeme.read? (c :: rest)
      let tokens ← scanRest size fuel behind
      some (⟨lexeme, size - Location.bytes (c :: rest)⟩ :: tokens)

/-- The tokens of a text. -/
def scan (cs : List Char) : Option (List Token) := scanRest (Location.bytes cs) cs.length cs

end Token

end GraphProjection
