/-!
# Endings of a text

`dropSuffix?` takes an ending off a text that has it.
-/

namespace GraphProjection.Text

/-- A text without a given ending, if it ends so. -/
def dropSuffix? (ending cs : List Char) : Option (List Char) :=
  if ending.isSuffixOf cs then some (cs.take (cs.length - ending.length)) else none

theorem dropSuffix?_eq_some_iff {ending cs rest : List Char} :
    dropSuffix? ending cs = some rest ↔ cs = rest ++ ending := by
  unfold dropSuffix?
  constructor
  · intro h
    split at h
    · next hs =>
      obtain ⟨front, rfl⟩ := List.isSuffixOf_iff_suffix.1 hs
      simp only [List.length_append, Nat.add_sub_cancel, List.take_left, Option.some.injEq] at h
      rw [h]
    · simp at h
  · rintro rfl
    rw [if_pos (List.isSuffixOf_iff_suffix.2 (List.suffix_append rest ending))]
    simp

end GraphProjection.Text
