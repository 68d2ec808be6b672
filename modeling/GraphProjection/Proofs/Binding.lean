import GraphProjection.Binding
import GraphProjection.Proofs.Entries
import Mathlib.Data.List.Perm.Subperm

/-!
# When parameters are bound

Binding looks at arguments only through the names they hold: it fails at the first parameter
that has no value, and whether a parameter has one depends on its name being there.  Two argument
lists that are the same as maps hold the same names (`Value.isSome_get?_of_sameArguments`), so
they bind the same parameters (`exists_bind_of_sameArguments`).
-/

namespace GraphProjection

/-! ## Argument lists that are the same -/

namespace Value

lemma names_subset_of_sameMembers {a b : Arguments} (h : sameMembers a b = true) :
    Entries.names a ⊆ Entries.names b := by
  intro name hname
  obtain ⟨pair, hpair, rfl⟩ := List.mem_map.1 hname
  obtain ⟨other, hother, -⟩ := (sameMembers_iff a b).1 h pair hpair
  rw [← Entries.isSome_get?_iff, hother]
  rfl

/-- No name is twice in `a`, so `b`, which is no longer, has no room for a further one. -/
lemma names_perm_of_sameMembers {a b : Arguments} (ha : (Entries.names a).Nodup)
    (hlength : a.length = b.length) (h : sameMembers a b = true) :
    (Entries.names a).Perm (Entries.names b) := by
  have hsub := List.subperm_of_subset ha (names_subset_of_sameMembers h)
  exact hsub.perm_of_length_le (by simp [Entries.names, hlength])

/-- Two argument lists that are the same hold the same names. -/
theorem isSome_get?_of_sameArguments {a b : Arguments} (ha : (Entries.names a).Nodup)
    (h : sameArguments a b = true) (name : String) :
    (a.get? name).isSome = (b.get? name).isSome := by
  simp only [sameArguments, Bool.and_eq_true, beq_iff_eq] at h
  rw [Bool.eq_iff_iff, Entries.isSome_get?_iff, Entries.isSome_get?_iff]
  exact (names_perm_of_sameMembers ha h.1 h.2).mem_iff

end Value

/-! ## Parameters that have a value -/

lemma Parameter.isSome_resolve?_congr {a b : Arguments} (services : ServiceLocator)
    (p : Parameter) (h : ∀ name, (a.get? name).isSome = (b.get? name).isSome) :
    (p.resolve? a services).isSome = (p.resolve? b services).isSome := by
  unfold resolve?
  cases p.kind with
  | scalar type => simpa using h p.name
  | service key => rfl

lemma exists_bindOnto_iff (arguments : Arguments) (services : ServiceLocator)
    (parameters : List Parameter) (bound : Bindings) :
    (∃ all, bindOnto arguments services parameters bound = .ok all) ↔
      ∀ p ∈ parameters, (p.resolve? arguments services).isSome = true := by
  induction parameters generalizing bound with
  | nil => simp [bindOnto]
  | cons p rest ih =>
    cases hp : p.resolve? arguments services with
    | none => simp [bindOnto, hp]
    | some value => simp [bindOnto, hp, ih]

/-- Parameters are bound exactly when each of them has a value. -/
theorem exists_bind_iff (arguments : Arguments) (services : ServiceLocator)
    (parameters : List Parameter) :
    (∃ all, bind parameters arguments services = .ok all) ↔
      ∀ p ∈ parameters, (p.resolve? arguments services).isSome = true :=
  exists_bindOnto_iff arguments services parameters []

/-- Whether parameters are bound does not depend on the order of the arguments. -/
theorem exists_bind_of_sameArguments {a b : Arguments} (services : ServiceLocator)
    (parameters : List Parameter) (ha : (Entries.names a).Nodup)
    (h : Value.sameArguments a b = true) :
    (∃ all, bind parameters a services = .ok all) ↔
      ∃ all, bind parameters b services = .ok all := by
  rw [exists_bind_iff, exists_bind_iff]
  have hnames := Value.isSome_get?_of_sameArguments ha h
  constructor
  · intro hall p hp
    rw [← p.isSome_resolve?_congr services hnames]
    exact hall p hp
  · intro hall p hp
    rw [p.isSome_resolve?_congr services hnames]
    exact hall p hp

end GraphProjection
