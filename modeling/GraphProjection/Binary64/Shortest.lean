import GraphProjection.Binary64

/-!
# The fewest digits that read back

A binary64 number is written with as few decimal digits as identify it.  The reals that round
to a number form an interval around it, ends included when its significand is even; `shortest`
looks on the grids of one, two, three … decimal digits for a point of that interval, and takes
the first grid that has one.  On a grid only the two neighbours of the number need be tried,
for if any point of the grid lies in the interval so does one of them.

How those digits are laid out is the format's own decision and is kept in one record,
`DecimalLayout`.
-/

namespace GraphProjection

namespace Binary64

/-- A decimal grid point `c * 10 ^ g` and a number of quarter steps `a * 2 ^ (q - 2)`, both
brought to one denominator. -/
def gridSide (c : Nat) (g q : Int) : Nat := c * power 10 g * power 2 (-(q - 2))

/-- The side of the quarter steps in the comparison with `gridSide`. -/
def stepSide (a : Nat) (g q : Int) : Nat := a * power 2 (q - 2) * power 10 (-g)

/-- Whether `c * 10 ^ g` rounds to the number with significand `m` and exponent `q`.  The number
lies four quarter steps above its predecessor, two of which are its own; just above a power of
two the predecessor is only half as far. -/
def identifies (m : Nat) (q : Int) (c : Nat) (g : Int) : Bool :=
  let below := if m = leastNormal ∧ leastExponent < q then 4 * m - 1 else 4 * m - 2
  let above := 4 * m + 2
  let point := gridSide c g q
  if m % 2 = 0 then stepSide below g q ≤ point && point ≤ stepSide above g q
  else stepSide below g q < point && point < stepSide above g q

/-- The grid point below the number, or on it. -/
def gridFloor (m : Nat) (q g : Int) : Nat :=
  stepSide (4 * m) g q / gridSide 1 g q

/-- Whether the grid point above the number is nearer than the one below; at equal distance the
even one is taken. -/
def prefersUpper (m : Nat) (q : Int) (c : Nat) (g : Int) : Bool :=
  let number := 2 * stepSide (4 * m) g q
  let middle := gridSide (2 * c + 1) g q
  middle < number || middle == number && c % 2 == 1

/-- The neighbour of the number on the grid of spacing `10 ^ g` that identifies it, if any. -/
def onGrid? (m : Nat) (q g : Int) : Option Nat :=
  let c := gridFloor m q g
  match identifies m q c g, identifies m q (c + 1) g with
  | true, true => some (if prefersUpper m q c g then c + 1 else c)
  | true, false => some c
  | false, true => some (c + 1)
  | false, false => none

/-- The exponent of the first decimal digit of the number. -/
def firstDigit (m : Nat) (q : Int) : Int :=
  let guess := (((Nat.log2 m : Int) + q) * 30103).fdiv 100000
  let reaches (g : Int) : Bool := gridSide 1 g q ≤ stepSide (4 * m) g q
  if reaches (guess + 1) then guess + 1 else if reaches guess then guess else guess - 1

/-- Tries the grids of `g`, `g - 1`, … in turn. -/
def searchGrids (m : Nat) (q : Int) : Nat → Int → Nat × Int
  | 0, g => (gridFloor m q g, g)
  | tries + 1, g =>
    match onGrid? m q g with
    | some c => (c, g)
    | none => searchGrids m q tries (g - 1)

/-- The shortest decimal that reads back as the number, nearest to it among those of its length.
Seventeen digits identify every number. -/
def shortest (x : Binary64) : Decimal :=
  if x.significand = 0 then ⟨x.negative, 0, 0⟩
  else
    let found := searchGrids x.significand x.exponent 17 (firstDigit x.significand x.exponent)
    ⟨x.negative, found.1, found.2⟩

end Binary64

/-- How the digits of a fractional number are laid out: between which exponents of the first
digit the number is written positionally; outside of them it is written with an exponent. -/
structure DecimalLayout where
  leastPositional : Int
  greatestPositional : Int

namespace DecimalLayout

/-- The digits from `c` on without the zeros at their end. -/
def significantDigits (digits : Nat) : List Char :=
  ((Nat.toDigits 10 digits).reverse.dropWhile (· == '0')).reverse

/-- The positional form: always a point, with a digit on either side of it. -/
def positional (digits : List Char) (first : Int) : List Char :=
  if first < 0 then '0' :: '.' :: List.replicate (-first - 1).toNat '0' ++ digits
  else
    let whole := first.toNat + 1
    let fraction := digits.drop whole
    digits.take whole ++ List.replicate (whole - digits.length) '0' ++
      '.' :: (if fraction.isEmpty then ['0'] else fraction)

/-- The form with an exponent, whose sign is always written. -/
def scientific (digits : List Char) (first : Int) : List Char :=
  let fraction := digits.drop 1
  digits.take 1 ++ (if fraction.isEmpty then [] else '.' :: fraction) ++
    'e' :: (if first < 0 then '-' else '+') :: Nat.toDigits 10 first.natAbs

/-- The text of a decimal. -/
def chars (layout : DecimalLayout) (d : Decimal) : List Char :=
  let sign := if d.negative then ['-'] else []
  if d.digits = 0 then sign ++ ['0', '.', '0']
  else
    let first : Int := ((Nat.toDigits 10 d.digits).length : Int) - 1 + d.exponent
    let digits := significantDigits d.digits
    sign ++
      if layout.leastPositional ≤ first ∧ first ≤ layout.greatestPositional then
        positional digits first
      else scientific digits first

end DecimalLayout

end GraphProjection
