import GraphProjection.Value

/-!
# Reading a value from its text

`Value.ofText?` reads JSON.  A whole number that fits in 64 bits, signed or not, is an `int`; any
other number is a binary64 number, and a number past all of those is refused, as is text after
the value.  Of the digits of a number no more are read than an unsigned word of 64 bits holds;
the digits behind them are as good as zeros.  The result is `Decimal.scaled?` of what is read,
so it may lie beside the nearest binary64 number.  A member named twice keeps its first place
and its last value.

The reader goes down the text as a list of characters.  Every value takes at least one of
them, so the number of characters bounds how often the reader can turn, and that number is
the fuel it is given.
-/

namespace GraphProjection

namespace Value

/-- The four characters that may stand between the parts of a text. -/
def isBlank (c : Char) : Bool := c == ' ' || c == '\n' || c == '\r' || c == '\t'

/-- The text after the blanks at its start. -/
def skipBlanks (cs : List Char) : List Char := cs.dropWhile isBlank

/-- The value of a hexadecimal digit. -/
def hexValue? (c : Char) : Option Nat :=
  if '0' ≤ c ∧ c ≤ '9' then some (c.toNat - '0'.toNat)
  else if 'a' ≤ c ∧ c ≤ 'f' then some (c.toNat - 'a'.toNat + 10)
  else if 'A' ≤ c ∧ c ≤ 'F' then some (c.toNat - 'A'.toNat + 10)
  else none

/-- The number written by hexadecimal digits. -/
def hexNumber? (cs : List Char) : Option Nat :=
  cs.foldlM (fun n c => (hexValue? c).map (16 * n + ·)) 0

/-- The escapes that stand for one character. -/
def unescape? : Char → Option Char
  | '"' => some '"'
  | '\\' => some '\\'
  | '/' => some '/'
  | 'b' => some '\x08'
  | 'f' => some '\x0c'
  | 'n' => some '\n'
  | 'r' => some '\r'
  | 't' => some '\t'
  | _ => none

/-- The first half of a character that is written as two code units. -/
def isHighUnit (n : Nat) : Bool := 0xD800 ≤ n && n < 0xDC00

/-- The second half. -/
def isLowUnit (n : Nat) : Bool := 0xDC00 ≤ n && n < 0xE000

/-- The rest of a string after its opening quote, and the text after it. -/
def readString : List Char → Option (List Char × List Char)
  | '"' :: rest => some ([], rest)
  | '\\' :: 'u' :: a :: b :: c :: d :: '\\' :: 'u' :: e :: f :: g :: h :: rest => do
    let first ← hexNumber? [a, b, c, d]
    if isHighUnit first then
      let second ← hexNumber? [e, f, g, h]
      if isLowUnit second then
        let (s, rest) ← readString rest
        some (Char.ofNat (0x10000 + (first - 0xD800) * 0x400 + (second - 0xDC00)) :: s, rest)
      else none
    else if isLowUnit first then none
    else
      let (s, rest) ← readString ('\\' :: 'u' :: e :: f :: g :: h :: rest)
      some (Char.ofNat first :: s, rest)
  | '\\' :: 'u' :: a :: b :: c :: d :: rest => do
    let n ← hexNumber? [a, b, c, d]
    if isHighUnit n || isLowUnit n then none
    else
      let (s, rest) ← readString rest
      some (Char.ofNat n :: s, rest)
  | '\\' :: c :: rest => do
    let c ← unescape? c
    let (s, rest) ← readString rest
    some (c :: s, rest)
  | c :: rest =>
    if c.toNat < 32 then none
    else do
      let (s, rest) ← readString rest
      some (c :: s, rest)
  | [] => none

/-- The digits at the start of a text, and the text after them. -/
def spanDigits (cs : List Char) : List Char × List Char :=
  (cs.takeWhile Char.isDigit, cs.dropWhile Char.isDigit)

/-- The digits after a point, if there is one. -/
def readFraction : List Char → Option (List Char × List Char)
  | '.' :: rest =>
    let (digits, rest) := spanDigits rest
    if digits.isEmpty then none else some (digits, rest)
  | rest => some ([], rest)

/-- The exponent, if there is one. -/
def readExponent : List Char → Option (Option Int × List Char)
  | e :: rest =>
    if e = 'e' ∨ e = 'E' then
      let (negative, rest) := match rest with
        | '-' :: rest => (true, rest)
        | '+' :: rest => (false, rest)
        | rest => (false, rest)
      let (digits, rest) := spanDigits rest
      if digits.isEmpty then none
      else
        let n : Int := Nat.ofDigitChars 10 digits 0
        some (some (if negative then -n else n), rest)
    else some (none, e :: rest)
  | [] => some (none, [])

/-- How far below zero a whole number is still kept as one. -/
def belowZero : Nat := 9223372036854775808

/-- How far above zero a whole number is still kept as one. -/
def aboveZero : Nat := 18446744073709551615

/-- A number continued by digits for as long as it fits in an unsigned word, and the digits from
the first one on that it has no room for. -/
def takeDigits : Nat → List Char → Nat × List Char
  | n, [] => (n, [])
  | n, c :: rest =>
    let longer := 10 * n + (c.toNat - '0'.toNat)
    if longer ≤ aboveZero then takeDigits longer rest else (n, c :: rest)

/-- A whole number that is kept as one: one that fits in 64 bits, and no negative zero. -/
def ofWhole? (negative : Bool) (n : Nat) : Option Value :=
  if !negative then some (.int n)
  else if 0 < n ∧ n ≤ belowZero then some (.int (-n))
  else none

/-- The number of the digits in front of a point, the digits behind it and an exponent. -/
def ofParts? (negative : Bool) (whole fraction : List Char) (exponent : Int) : Option Value :=
  let (front, frontLeft) := takeDigits 0 whole
  let (digits, fractionLeft) := takeDigits front fraction
  let places : Int := (fraction.length : Int) - fractionLeft.length
  (Decimal.scaled? ⟨negative, digits, exponent + frontLeft.length - places⟩).map .double

/-- A number, and the text after it. -/
def readNumber (cs : List Char) : Option (Value × List Char) := do
  let (negative, cs) := match cs with
    | '-' :: rest => (true, rest)
    | rest => (false, rest)
  let (whole, cs) := spanDigits cs
  if whole.isEmpty || whole.length > 1 && whole.head? == some '0' then none
  else
    let (fraction, cs) ← readFraction cs
    let (exponent, cs) ← readExponent cs
    let number := match takeDigits 0 whole, fraction, exponent with
      | (n, []), [], none => ofWhole? negative n
      | _, _, _ => none
    let number ← number <|> ofParts? negative whole fraction (exponent.getD 0)
    some (number, cs)

mutual

/-- A value, and the text after it. -/
def read : Nat → List Char → Option (Value × List Char)
  | 0, _ => none
  | fuel + 1, cs =>
    match skipBlanks cs with
    | 'n' :: 'u' :: 'l' :: 'l' :: rest => some (.null, rest)
    | 't' :: 'r' :: 'u' :: 'e' :: rest => some (.bool true, rest)
    | 'f' :: 'a' :: 'l' :: 's' :: 'e' :: rest => some (.bool false, rest)
    | '"' :: rest => do
      let (s, rest) ← readString rest
      some (.string (String.ofList s), rest)
    | '[' :: rest =>
      match skipBlanks rest with
      | ']' :: rest => some (.array [], rest)
      | rest => do
        let (items, rest) ← readItems fuel rest
        some (.array items, rest)
    | '\x7b' :: rest =>
      match skipBlanks rest with
      | '\x7d' :: rest => some (.object [], rest)
      | rest => do
        let (members, rest) ← readMembers fuel rest
        some (.object (Entries.ofList members), rest)
    | rest => readNumber rest

/-- The items of a list up to its closing bracket. -/
def readItems : Nat → List Char → Option (List Value × List Char)
  | 0, _ => none
  | fuel + 1, cs => do
    let (v, rest) ← read fuel cs
    match skipBlanks rest with
    | ']' :: rest => some ([v], rest)
    | ',' :: rest =>
      let (items, rest) ← readItems fuel rest
      some (v :: items, rest)
    | _ => none

/-- The members of an object up to its closing brace. -/
def readMembers : Nat → List Char → Option (List (String × Value) × List Char)
  | 0, _ => none
  | fuel + 1, cs =>
    match skipBlanks cs with
    | '"' :: rest => do
      let (name, rest) ← readString rest
      match skipBlanks rest with
      | ':' :: rest =>
        let (v, rest) ← read fuel rest
        match skipBlanks rest with
        | '\x7d' :: rest => some ([(String.ofList name, v)], rest)
        | ',' :: rest =>
          let (members, rest) ← readMembers fuel rest
          some ((String.ofList name, v) :: members, rest)
        | _ => none
      | _ => none
    | _ => none

end

/-- The value of a text. -/
def ofText? (s : String) : Option Value :=
  let cs := s.toList
  match read (2 * cs.length + 1) cs with
  | some (v, rest) => if (skipBlanks rest).isEmpty then some v else none
  | none => none

end Value

end GraphProjection
