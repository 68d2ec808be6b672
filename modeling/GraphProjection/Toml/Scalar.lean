import GraphProjection.Binary64
import GraphProjection.Toml
import GraphProjection.Value.Reader

/-!
# Numbers and dates of a configuration document

A bare word that stands as a value is a boolean, a number or a date.  Underscores may stand
between the digits of a number, and only there.  A whole number is decimal with an optional
sign, or hexadecimal, octal or binary without one, and has to fit in a signed word of 64 bits.
-/

namespace GraphProjection.Toml

/-- The digits of a number without the underscores between them. -/
def ungroup? (isDigit : Char → Bool) : List Char → Option (List Char)
  | [] => none
  | [c] => if isDigit c then some [c] else none
  | c :: '_' :: rest => if isDigit c then (ungroup? isDigit rest).map (c :: ·) else none
  | c :: rest => if isDigit c then (ungroup? isDigit rest).map (c :: ·) else none

/-- A sign, and the text behind it. -/
def splitSign : List Char → Bool × List Char
  | '-' :: rest => (true, rest)
  | '+' :: rest => (false, rest)
  | rest => (false, rest)

/-- Decimal digits that do not start with a needless zero. -/
def decimalDigits? (cs : List Char) : Option (List Char) :=
  (ungroup? Char.isDigit cs).filter fun digits => digits.length = 1 || digits.head? != some '0'

/-- The number of digits in a base. -/
def based? (base : Nat) (cs : List Char) : Option Nat :=
  let isDigit (c : Char) : Bool := (Value.hexValue? c).any (· < base)
  (ungroup? isDigit cs).map fun digits =>
    digits.foldl (fun n c => base * n + (Value.hexValue? c).getD 0) 0

/-- The least whole number of a signed word of 64 bits. -/
def leastInteger : Int := -9223372036854775808

/-- The greatest whole number of a signed word of 64 bits. -/
def greatestInteger : Int := 9223372036854775807

/-- A whole number, within the range of a signed word of 64 bits. -/
def integer? (cs : List Char) : Option Int :=
  let n : Option Int := match cs with
    | '0' :: 'x' :: rest => (based? 16 rest).map Int.ofNat
    | '0' :: 'o' :: rest => (based? 8 rest).map Int.ofNat
    | '0' :: 'b' :: rest => (based? 2 rest).map Int.ofNat
    | _ =>
      let (negative, rest) := splitSign cs
      (decimalDigits? rest).map fun digits =>
        let n : Int := Nat.ofDigitChars 10 digits 0
        if negative then -n else n
  n.filter fun n => leastInteger ≤ n && n ≤ greatestInteger

/-- Whether a word is a fractional number: with a point, with an exponent or with both, and not
above all binary64 numbers; or one of the words for infinity and for no number.  A number below
all binary64 numbers is one: it is read as the negative infinity, and only the positive one has
to be written as such. -/
def isFloat (cs : List Char) : Bool :=
  let (negative, body) := splitSign cs
  if body = ['i', 'n', 'f'] ∨ body = ['n', 'a', 'n'] then true
  else
    let isMark (c : Char) : Bool := c == 'e' || c == 'E'
    let mantissa := body.takeWhile (!isMark ·)
    let exponent := (body.dropWhile (!isMark ·)).drop 1
    let whole := mantissa.takeWhile (· != '.')
    let fraction := (mantissa.dropWhile (· != '.')).drop 1
    let hasExponent := body.any isMark
    let hasFraction := mantissa.contains '.'
    let (exponentNegative, exponentBody) := splitSign exponent
    let part (present : Bool) (cs : List Char) : Option (List Char) :=
      if present then ungroup? Char.isDigit cs else some []
    match decimalDigits? whole, part hasFraction fraction, part hasExponent exponentBody with
    | some whole, some fraction, some exponent =>
      let power : Int := Nat.ofDigitChars 10 exponent 0
      let written : Decimal := ⟨negative, Nat.ofDigitChars 10 (whole ++ fraction) 0,
        (if exponentNegative then -power else power) - fraction.length⟩
      (hasFraction || hasExponent) && (negative || written.toBinary64?.isSome)
    | _, _, _ => false

/-- The number of two digits. -/
def twoDigits? (a b : Char) : Option Nat :=
  if a.isDigit && b.isDigit then some (Nat.ofDigitChars 10 [a, b] 0) else none

/-- The number of days of a month. -/
def daysInMonth (year month : Nat) : Nat :=
  if month = 2 then
    if year % 4 = 0 ∧ (year % 100 ≠ 0 ∨ year % 400 = 0) then 29 else 28
  else if month ∈ [4, 6, 9, 11] then 30
  else 31

/-- The text behind a date of year, month and day. -/
def dropDate? : List Char → Option (List Char)
  | a :: b :: c :: d :: '-' :: e :: f :: '-' :: g :: h :: rest => do
    let century ← twoDigits? a b
    let year ← twoDigits? c d
    let month ← twoDigits? e f
    let day ← twoDigits? g h
    if 1 ≤ month ∧ month ≤ 12 ∧ 1 ≤ day ∧ day ≤ daysInMonth (100 * century + year) month then
      some rest
    else none
  | _ => none

/-- The text behind a time of hour, minute and second, and the fraction of a second. -/
def dropTime? : List Char → Option (List Char)
  | a :: b :: ':' :: c :: d :: ':' :: e :: f :: rest => do
    let hour ← twoDigits? a b
    let minute ← twoDigits? c d
    let second ← twoDigits? e f
    if hour < 24 ∧ minute < 60 ∧ second ≤ 60 then
      match rest with
      | '.' :: g :: rest => if g.isDigit then some (rest.dropWhile Char.isDigit) else none
      | rest => some rest
    else none
  | _ => none

/-- Whether a text is an offset from universal time, or nothing. -/
def isTimeOffset : List Char → Bool
  | [] | ['Z'] | ['z'] => true
  | [sign, a, b, ':', c, d] =>
    (sign == '+' || sign == '-') && (twoDigits? a b).any (· < 24) && (twoDigits? c d).any (· < 60)
  | _ => false

/-- Whether a word is a date, a time of day, or both. -/
def isDateTime (cs : List Char) : Bool :=
  match dropDate? cs with
  | some [] => true
  | some (mark :: rest) =>
    (mark == 'T' || mark == 't' || mark == ' ') && (dropTime? rest).any isTimeOffset
  | none => dropTime? cs == some []

/-- The value of a bare word. -/
def ofWord? (cs : List Char) : Option Toml :=
  if cs = ['t', 'r', 'u', 'e'] then some (.boolean true)
  else if cs = ['f', 'a', 'l', 's', 'e'] then some (.boolean false)
  else if isDateTime cs then some (.datetime (String.ofList cs))
  else if isFloat cs then some (.float (String.ofList cs))
  else (integer? cs).map .integer

/-- The characters of a bare word. -/
def isWordPart (c : Char) : Bool :=
  c.isAlphanum || c == '_' || c == '-' || c == '+' || c == '.' || c == ':'

/-- The bare word at the start of a text, and the text behind it.  A blank between a date and a
time of day belongs to the word. -/
def spanWord (cs : List Char) : List Char × List Char :=
  let word := cs.takeWhile isWordPart
  let rest := cs.dropWhile isWordPart
  match rest with
  | ' ' :: a :: b :: ':' :: more =>
    if dropDate? word = some [] ∧ a.isDigit ∧ b.isDigit then
      (word ++ [' ', a, b, ':'] ++ more.takeWhile isWordPart, more.dropWhile isWordPart)
    else (word, rest)
  | _ => (word, rest)

end GraphProjection.Toml
