import GraphProjection.Proofs.Binding
import GraphProjection.Proofs.KeyText
import Mathlib.Data.List.Forall2

/-!
# Sameness is an equivalence

`Value.same` compares the members of two objects from one side only: there are as many on both
sides, and each of the first is found in the second.  That is enough for maps.  On lists of pairs
that hold a name twice it is not even reflexive, so the laws are stated for values that are maps
wherever they are objects, `Value.Keyed`, which is what a reader of requests produces.

Main statements: `Value.same_refl`, `Value.same_symm` and `Value.same_trans`, and the same of
argument lists, which are compared as the objects that they make up.
-/

namespace GraphProjection

theorem Binary64.same_trans {x y z : Binary64} (h : x.same y = true) (h' : y.same z = true) :
    x.same z = true := by
  simp only [same, Bool.or_eq_true, Bool.and_eq_true, beq_iff_eq] at h h' ⊢
  rcases h with ⟨hx, hy⟩ | rfl
  · rcases h' with ⟨-, hz⟩ | rfl
    · exact .inl ⟨hx, hz⟩
    · exact .inl ⟨hx, hy⟩
  · exact h'

/-- Where no name is there twice, every pair is found under its name. -/
lemma Entries.get?_eq_some_of_mem {α : Type} {entries : Entries α} (h : entries.names.Nodup)
    {pair : String × α} (hpair : pair ∈ entries) : entries.get? pair.1 = some pair.2 := by
  induction entries with
  | nil => cases hpair
  | cons first rest ih =>
    obtain ⟨hfirst, hrest⟩ := List.nodup_cons.1 h
    rcases List.mem_cons.1 hpair with rfl | hmem
    · exact if_pos rfl
    · have hname : pair.1 ∈ rest.map (·.1) := List.mem_map_of_mem hmem
      have hne : ¬ first.1 = pair.1 := by
        intro heq
        rw [← heq] at hname
        exact hfirst hname
      exact (if_neg hne).trans (ih hrest hmem)

namespace Value

/-- A value that holds no name twice in any of its objects. -/
inductive Keyed : Value → Prop
  | key {v : Value} (h : v.isKey = true) : Keyed v
  | double (x : Binary64) : Keyed (.double x)
  | array {items : List Value} (each : ∀ v ∈ items, Keyed v) : Keyed (.array items)
  | object {members : List (String × Value)} (names : (Entries.names members).Nodup)
    (each : ∀ pair ∈ members, Keyed pair.2) : Keyed (.object members)

/-- Keys under distinct names are a map. -/
lemma Keyed.of_keys {members : List (String × Value)} (names : (Entries.names members).Nodup)
    (keys : ∀ pair ∈ members, pair.2.isKey = true) : Keyed (.object members) :=
  .object names fun pair hpair => .key (keys pair hpair)

lemma Keyed.of_mem_items {items : List Value} (h : Keyed (.array items)) {v : Value}
    (hv : v ∈ items) : Keyed v := by
  cases h with
  | key h => cases h
  | array each => exact each v hv

lemma Keyed.of_mem_members {members : List (String × Value)} (h : Keyed (.object members))
    {pair : String × Value} (hpair : pair ∈ members) : Keyed pair.2 := by
  cases h with
  | key h => cases h
  | object _ each => exact each pair hpair

lemma Keyed.nodup_names {members : List (String × Value)} (h : Keyed (.object members)) :
    (Entries.names members).Nodup := by
  cases h with
  | key h => cases h
  | object names _ => exact names

/-! ## Lists and objects -/

lemma sameItems_iff {as bs : List Value} :
    sameItems as bs = true ↔ List.Forall₂ (fun a b => a.same b = true) as bs := by
  induction as generalizing bs with
  | nil => cases bs <;> simp [sameItems]
  | cons a as ih => cases bs <;> simp [sameItems, ih]

lemma same_double_iff {x : Binary64} {w : Value} :
    (Value.double x).same w = true ↔ ∃ y, w = .double y ∧ x.same y = true := by
  cases w <;> simp [same]

lemma same_array_iff {items : List Value} {w : Value} :
    (Value.array items).same w = true ↔
      ∃ others, w = .array others ∧ List.Forall₂ (fun a b => a.same b = true) items others := by
  cases w <;> simp [same, sameItems_iff]

lemma same_object_iff {members : List (String × Value)} {w : Value} :
    (Value.object members).same w = true ↔
      ∃ others, w = .object others ∧ members.length = others.length ∧
        ∀ pair ∈ members, ∃ other, Entries.get? others pair.1 = some other ∧
          pair.2.same other = true := by
  cases w <;> simp [same, sameMembers_iff]

lemma forall₂_trans_of_mem {α : Type} {R : α → α → Prop} {as bs cs : List α}
    (h : List.Forall₂ R as bs) (h' : List.Forall₂ R bs cs)
    (trans : ∀ a ∈ as, ∀ b c, R a b → R b c → R a c) : List.Forall₂ R as cs := by
  induction h generalizing cs with
  | nil => exact h'
  | cons hab _ ih =>
    cases h' with
    | cons hbc hrest =>
      exact .cons (trans _ List.mem_cons_self _ _ hab hbc)
        (ih hrest fun a ha => trans a (List.mem_cons_of_mem _ ha))

/-! ## The three laws -/

theorem same_refl {v : Value} (h : Keyed v) : v.same v = true := by
  induction h with
  | key h => exact (same_iff_eq_of_isKey h).2 rfl
  | double x => rw [same, Binary64.same_refl]
  | array _ ih => exact same_array_iff.2 ⟨_, rfl, List.forall₂_same.2 ih⟩
  | object names _ ih =>
    exact same_object_iff.2
      ⟨_, rfl, rfl, fun pair hpair => ⟨_, Entries.get?_eq_some_of_mem names hpair, ih pair hpair⟩⟩

theorem same_symm {v w : Value} (hv : Keyed v) (hw : Keyed w) (h : v.same w = true) :
    w.same v = true := by
  induction hv generalizing w with
  | key hkey =>
    obtain rfl := (same_iff_eq_of_isKey hkey).1 h
    exact h
  | double x =>
    obtain ⟨y, rfl, hxy⟩ := same_double_iff.1 h
    exact same_double_iff.2 ⟨x, rfl, Binary64.same_comm x y ▸ hxy⟩
  | @array items _ ih =>
    obtain ⟨others, rfl, hitems⟩ := same_array_iff.1 h
    have hsymm : List.Forall₂ (fun v w => (∀ w, Keyed w → v.same w = true → w.same v = true) ∧
        v.same w = true) items others :=
      (List.forall₂_and_left _ _).2 ⟨fun v hv w => ih v hv, hitems⟩
    have hback : List.Forall₂ (fun w v => Keyed w ∧
        (∀ w, Keyed w → v.same w = true → w.same v = true) ∧ v.same w = true) others items :=
      (List.forall₂_and_left _ _).2 ⟨fun w => hw.of_mem_items, hsymm.flip⟩
    exact same_array_iff.2
      ⟨items, rfl, hback.imp fun w v ⟨hkeyed, hsymm, hsame⟩ => hsymm w hkeyed hsame⟩
  | @object members names _ ih =>
    obtain ⟨others, rfl, hlength, hmembers⟩ := same_object_iff.1 h
    refine same_object_iff.2 ⟨members, rfl, hlength.symm, fun pair hpair => ?_⟩
    -- Both objects have the same names, so every member of the other is found here, and is the one
    -- whose counterpart it is.
    have hperm := names_perm_of_sameMembers names hlength ((sameMembers_iff _ _).2 hmembers)
    have hname : pair.1 ∈ Entries.names members := hperm.mem_iff.2 (List.mem_map_of_mem hpair)
    obtain ⟨own, hown, hnamed⟩ := List.mem_map.1 hname
    obtain ⟨other, hother, hsame⟩ := hmembers own hown
    rw [hnamed, Entries.get?_eq_some_of_mem hw.nodup_names hpair, Option.some.injEq] at hother
    subst hother
    refine ⟨own.2, hnamed ▸ Entries.get?_eq_some_of_mem names hown, ?_⟩
    exact ih own hown (hw.of_mem_members hpair) hsame

theorem same_trans {u v w : Value} (hu : Keyed u) (h : u.same v = true)
    (h' : v.same w = true) : u.same w = true := by
  induction hu generalizing v w with
  | key hkey =>
    obtain rfl := (same_iff_eq_of_isKey hkey).1 h
    exact h'
  | double x =>
    obtain ⟨y, rfl, hxy⟩ := same_double_iff.1 h
    obtain ⟨z, rfl, hyz⟩ := same_double_iff.1 h'
    exact same_double_iff.2 ⟨z, rfl, Binary64.same_trans hxy hyz⟩
  | array _ ih =>
    obtain ⟨others, rfl, hitems⟩ := same_array_iff.1 h
    obtain ⟨last, rfl, hothers⟩ := same_array_iff.1 h'
    exact same_array_iff.2 ⟨last, rfl, forall₂_trans_of_mem hitems hothers
      fun v hv _ _ => ih v hv⟩
  | object _ _ ih =>
    obtain ⟨others, rfl, hlength, hmembers⟩ := same_object_iff.1 h
    obtain ⟨last, rfl, hlength', hothers⟩ := same_object_iff.1 h'
    refine same_object_iff.2 ⟨last, rfl, hlength.trans hlength', fun pair hpair => ?_⟩
    obtain ⟨other, hother, hsame⟩ := hmembers pair hpair
    obtain ⟨final, hfinal, hsame'⟩ := hothers _ (Entries.mem_of_get?_eq_some hother)
    exact ⟨final, hfinal, ih pair hpair hsame hsame'⟩

/-! ## Arguments -/

variable {a b c : Arguments}

/-- Argument lists are compared as the objects that they make up. -/
lemma same_object_eq (a b : Arguments) :
    (Value.object a).same (.object b) = sameArguments a b := by
  rw [same, sameArguments]

/-- What one of two argument lists holds under a name is the same as what the other holds. -/
lemma exists_get?_of_sameArguments (h : sameArguments a b = true) {name : String} {v : Value}
    (hv : a.get? name = some v) : ∃ w, b.get? name = some w ∧ v.same w = true := by
  simp only [sameArguments, Bool.and_eq_true] at h
  exact (sameMembers_iff a b).1 h.2 _ (Entries.mem_of_get?_eq_some hv)

lemma sameArguments_refl (h : Keyed (.object a)) : sameArguments a a = true :=
  same_object_eq a a ▸ same_refl h

lemma sameArguments_symm (ha : Keyed (.object a)) (hb : Keyed (.object b))
    (h : sameArguments a b = true) : sameArguments b a = true := by
  rw [← same_object_eq] at h ⊢
  exact same_symm ha hb h

lemma sameArguments_trans (ha : Keyed (.object a)) (h : sameArguments a b = true)
    (h' : sameArguments b c = true) : sameArguments a c = true := by
  rw [← same_object_eq] at h h' ⊢
  exact same_trans ha h h'

end Value

end GraphProjection
