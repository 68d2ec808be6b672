/-!
# Finite binary64 numbers

The fractional numbers of a value are the finite binary64 numbers, held here by their parts
rather than by a machine word: a sign, a significand below `2 ^ 53` and the exponent of its last
bit.  Every rule about them is then a statement about natural numbers, and nothing hangs on
what the machine's own floating point does.

`ofRatio?` is the one way in: it takes the nearest binary64 number to a ratio, the one with
the even significand where two are equally near, and answers `none` where the ratio lies past
the largest of them.  Products and quotients are rounded by it.

A decimal is read in two ways.  `Decimal.toBinary64?` takes the nearest number to it.
`Decimal.scaled?` rounds its digits, then its power of ten, then the product or quotient of the
two, and may miss the nearest number by a little.
-/

namespace GraphProjection

/-- The number `significand * 2 ^ exponent`, negated when `negative`.  Zero keeps its sign. -/
structure Binary64 where
  negative : Bool
  significand : Nat
  exponent : Int
deriving DecidableEq, Repr

namespace Binary64

/-- The exponent of the last bit of a subnormal number, the least there is. -/
def leastExponent : Int := -1074

/-- The exponent of the last bit of the largest numbers. -/
def greatestExponent : Int := 971

/-- The least significand that uses all of its 53 bits. -/
def leastNormal : Nat := 4503599627370496

/-- The power `b ^ e` where `e` is not negative, else one.  Of the two powers of `e` and `-e` one
is a numerator and the other a denominator. -/
def power (b : Nat) (e : Int) : Nat := Nat.pow b e.toNat

/-- Zero, of either sign. -/
def zero (negative : Bool) : Binary64 := ⟨negative, 0, leastExponent⟩

/-- Whether two numbers have the same value; only the two zeros differ in their parts and not in
their value. -/
def same (x y : Binary64) : Bool := x.significand == 0 && y.significand == 0 || x == y

/-- The nearest whole number to `num / den`; of two equally near ones the even one. -/
def nearestEven (num den : Nat) : Nat :=
  let quotient := num / den
  let twice := 2 * (num % den)
  if twice < den then quotient
  else if den < twice then quotient + 1
  else quotient + quotient % 2

/-- The exponent at which `num / den` has a significand of 53 bits, but no less than the
exponent of the subnormal numbers. -/
def lastBit (num den : Nat) : Int :=
  let guess : Int := (Nat.log2 num : Int) - Nat.log2 den - 52
  let exact := if num * power 2 (-guess) < leastNormal * (den * power 2 guess) then guess - 1
    else guess
  max exact leastExponent

/-- The binary64 number nearest to `num / den`, unless that overflows. -/
def ofRatio? (negative : Bool) (num den : Nat) : Option Binary64 :=
  if num = 0 then some (zero negative)
  else
    let exponent := lastBit num den
    let significand := nearestEven (num * power 2 (-exponent)) (den * power 2 exponent)
    -- Rounding up may carry into a fifty-fourth bit.
    let rounded := if significand = 2 * leastNormal then (leastNormal, exponent + 1)
      else (significand, exponent)
    if greatestExponent < rounded.2 then none else some ⟨negative, rounded.1, rounded.2⟩

/-- The number nearest to a product, unless that overflows. -/
def times? (x y : Binary64) : Option Binary64 :=
  let exponent := x.exponent + y.exponent
  ofRatio? (x.negative != y.negative) (x.significand * y.significand * power 2 exponent)
    (power 2 (-exponent))

/-- The number nearest to a quotient, unless that overflows. -/
def over? (x y : Binary64) : Option Binary64 :=
  let exponent := x.exponent - y.exponent
  ofRatio? (x.negative != y.negative) (x.significand * power 2 exponent)
    (y.significand * power 2 (-exponent))

theorem same_refl (x : Binary64) : same x x = true := by simp [same]

theorem same_comm (x y : Binary64) : same x y = same y x := by
  simp only [same, Bool.and_comm, BEq.comm]

end Binary64

/-- The number `digits * 10 ^ exponent`, negated when `negative`: a number as it is written. -/
structure Decimal where
  negative : Bool
  digits : Nat
  exponent : Int
deriving DecidableEq, Repr

namespace Decimal

/-- A decimal whose first digit stands this far left of the point overflows, and one whose first
digit stands this far right of it is nearest to zero. -/
def range : Int := 400

/-- The binary64 number nearest to a decimal, unless that overflows. -/
def toBinary64? (d : Decimal) : Option Binary64 :=
  let magnitude : Int := ((Nat.toDigits 10 d.digits).length : Int) + d.exponent
  if d.digits = 0 ∨ magnitude < -range then some (Binary64.zero d.negative)
  else if range < magnitude then none
  else Binary64.ofRatio? d.negative (d.digits * Binary64.power 10 d.exponent)
    (Binary64.power 10 (-d.exponent))

/-- The greatest power of ten that does not overflow. -/
def greatestTen : Nat := 308

/-- The binary64 number nearest to a power of ten, unless that overflows. -/
def ten? (n : Nat) : Option Binary64 := toBinary64? ⟨false, 1, n⟩

/-- A number divided by a power of ten: once, or as often as it takes with the greatest power of
ten in each turn but the last, unless it is zero already. -/
def shrink? (x : Binary64) (n : Nat) : Option Binary64 :=
  if n ≤ greatestTen then (ten? n).bind x.over?
  else if x.significand = 0 then some x
  else (ten? greatestTen).bind x.over? |>.bind fun y => shrink? y (n - greatestTen)
termination_by n
decreasing_by simp only [greatestTen] at *; omega

/-- A number multiplied by a power of ten, unless that overflows. -/
def grow? (x : Binary64) (n : Nat) : Option Binary64 :=
  if x.significand = 0 then some x
  else if n ≤ greatestTen then (ten? n).bind x.times?
  else none

/-- The binary64 number nearest to the digits of a decimal, scaled by its power of ten. -/
def scaled? (d : Decimal) : Option Binary64 :=
  (Binary64.ofRatio? d.negative d.digits 1).bind fun x =>
    if 0 ≤ d.exponent then grow? x d.exponent.toNat else shrink? x (-d.exponent).toNat

end Decimal

end GraphProjection
