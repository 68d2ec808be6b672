import GraphProjection.Text.Base64

/-!
# Cursors

A cursor names the offset at which a page starts.  To its holder it is an opaque text: the
base64 form of `offset:` and the offset in decimal.  Reading one back is more lenient than
writing in two ways, a `+` before the digits and zeros in front of them, and refuses an offset
past `maxOffset`, which no storage query can express.
-/

namespace GraphProjection

/-- The largest offset of a storage query, whose offsets are signed words of 64 bits. -/
def maxOffset : Nat := 9223372036854775807

namespace Cursor

/-- What stands before the offset. -/
def label : List Char := ['o', 'f', 'f', 's', 'e', 't', ':']

/-- The text behind a cursor. -/
def plain (offset : Nat) : List Char := label ++ Nat.toDigits 10 offset

/-- The cursor of an offset. -/
def encode (offset : Nat) : String :=
  String.ofList (Text.Base64.encode ((plain offset).map fun c => UInt8.ofNat c.toNat))

/-- A decimal number: digits only, at least one, after an optional `+`. -/
def readDecimal? (cs : List Char) : Option Nat :=
  let digits := match cs with
    | '+' :: rest => rest
    | _ => cs
  if digits.isEmpty || !digits.all Char.isDigit then none else some (Nat.ofDigitChars 10 digits 0)

/-- The offset of the text behind a cursor. -/
def ofPlain? (cs : List Char) : Option Nat :=
  ((label.isPrefixOf? cs).bind readDecimal?).filter (· ≤ maxOffset)

/-- The offset that a cursor names. -/
def decode? (cursor : String) : Option Nat :=
  (Text.Base64.decode? cursor.toList).bind fun bytes =>
    ofPlain? (bytes.map fun b => Char.ofNat b.toNat)

end Cursor

end GraphProjection
