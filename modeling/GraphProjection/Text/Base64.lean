/-!
# Base64 for addresses

The encoding of bytes by sixty-four characters that are all safe in an address: letters, digits,
`-` and `_`, without padding.  Three bytes become four characters; one or two bytes at the end
become two or three, whose spare bits are zero.  A reader that lets the spare bits be anything
would give one sequence of bytes several texts, so `decode?` refuses them, as it refuses
padding, foreign characters and a single character at the end.
-/

namespace GraphProjection.Text.Base64

/-- The characters, by the six bits that they stand for. -/
def alphabet : List Char :=
  "ABCDEFGHIJKLMNOPQRSTUVWXYZabcdefghijklmnopqrstuvwxyz0123456789-_".toList

/-- The character of a number below sixty-four. -/
def digit (n : Nat) : Char := (alphabet[n]?).getD 'A'

/-- The number of a character. -/
def digitValue? (c : Char) : Option Nat := alphabet.idxOf? c

/-- The characters of a sequence of bytes. -/
def encode : List UInt8 → List Char
  | a :: b :: c :: rest =>
    let n := a.toNat * 65536 + b.toNat * 256 + c.toNat
    digit (n / 262144) :: digit (n / 4096 % 64) :: digit (n / 64 % 64) :: digit (n % 64) ::
      encode rest
  | [a, b] =>
    let n := a.toNat * 256 + b.toNat
    [digit (n / 1024), digit (n / 16 % 64), digit (n % 16 * 4)]
  | [a] => [digit (a.toNat / 4), digit (a.toNat % 4 * 16)]
  | [] => []

/-- The bytes of a sequence of six-bit numbers. -/
def ofSextets? : List Nat → Option (List UInt8)
  | a :: b :: c :: d :: rest =>
    let n := a * 262144 + b * 4096 + c * 64 + d
    (ofSextets? rest).map fun bytes =>
      UInt8.ofNat (n / 65536) :: UInt8.ofNat (n / 256 % 256) :: UInt8.ofNat (n % 256) :: bytes
  | [a, b, c] =>
    let n := a * 4096 + b * 64 + c
    if n % 4 = 0 then some [UInt8.ofNat (n / 1024), UInt8.ofNat (n / 4 % 256)] else none
  | [a, b] =>
    let n := a * 64 + b
    if n % 16 = 0 then some [UInt8.ofNat (n / 16)] else none
  | [_] => none
  | [] => some []

/-- The bytes of a text, if it is the text of any. -/
def decode? (cs : List Char) : Option (List UInt8) := (cs.mapM digitValue?).bind ofSextets?

end GraphProjection.Text.Base64
