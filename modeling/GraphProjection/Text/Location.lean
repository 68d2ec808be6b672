/-!
# Places in a text

A place is known in two ways: to the reader as the number of bytes in front of it, to the user
as a line and a column, both from one.  Lines end at line feeds alone, and columns count
characters, whatever their number of bytes.
-/

namespace GraphProjection

/-- A line and a column, both from one. -/
structure Location where
  line : Nat
  column : Nat
deriving DecidableEq, Repr

namespace Location

/-- The very start of a text. -/
def start : Location := ⟨1, 1⟩

/-- The number of bytes of a text. -/
def bytes : List Char → Nat
  | [] => 0
  | c :: rest => c.utf8Size + bytes rest

/-- The part of a text in front of a number of bytes, unless that number is past the end or
inside of a character. -/
def before? : Nat → List Char → Option (List Char)
  | 0, _ => some []
  | _ + 1, [] => none
  | n + 1, c :: rest =>
    if c.utf8Size ≤ n + 1 then (before? (n + 1 - c.utf8Size) rest).map (c :: ·) else none

/-- The place behind a text. -/
def behind (front : List Char) : Location where
  line := front.count '\n' + 1
  column := (front.reverse.takeWhile (· != '\n')).length + 1

/-- The place at a number of bytes; a number that is no place in the text stands for its end. -/
def ofOffset (text : List Char) (offset : Nat) : Location :=
  behind ((before? offset text).getD text)

theorem bytes_append (a b : List Char) : bytes (a ++ b) = bytes a + bytes b := by
  induction a with
  | nil => simp [bytes]
  | cons c rest ih => simp [bytes, ih, Nat.add_assoc]

theorem before?_bytes (front rest : List Char) :
    before? (bytes front) (front ++ rest) = some front := by
  induction front with
  | nil => simp [bytes, before?]
  | cons c front ih =>
    have hc : 0 < c.utf8Size := Char.utf8Size_pos c
    obtain ⟨n, hn⟩ : ∃ n, bytes (c :: front) = n + 1 := ⟨bytes (c :: front) - 1, by
      simp only [bytes]; omega⟩
    have hle : c.utf8Size ≤ n + 1 := by rw [← hn]; simp only [bytes]; omega
    have hsub : n + 1 - c.utf8Size = bytes front := by rw [← hn]; simp only [bytes]; omega
    rw [hn, List.cons_append, before?, if_pos hle, hsub, ih, Option.map_some]

theorem ofOffset_bytes (front rest : List Char) :
    ofOffset (front ++ rest) (bytes front) = behind front := by
  simp [ofOffset, before?_bytes]

end Location

end GraphProjection
