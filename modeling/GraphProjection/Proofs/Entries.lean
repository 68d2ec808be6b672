import GraphProjection.Entries
import Mathlib.Data.List.Basic

/-!
# Names and values of entries

A name is there exactly when reading it gives a value, and a value that is read stands under its
name.  Where a name is given again, the first of its values is read (`get?_eq_head?_given`); where
the pairs are written one after the other, the last (`get?_ofList`).
-/

namespace GraphProjection

namespace Entries

variable {α : Type}

lemma isSome_get?_iff (entries : Entries α) (name : String) :
    (entries.get? name).isSome = true ↔ name ∈ entries.names := by
  rw [Option.isSome_iff_ne_none, Ne, get?_eq_none_iff, not_not]

lemma mem_of_get?_eq_some {entries : Entries α} {name : String} {value : α}
    (h : entries.get? name = some value) : (name, value) ∈ entries := by
  induction entries with
  | nil => cases h
  | cons pair rest ih =>
    obtain ⟨key, old⟩ := pair
    rw [get?] at h
    split at h
    · next hkey =>
      cases h
      exact hkey ▸ List.mem_cons_self
    · exact List.mem_cons_of_mem _ (ih h)

/-- Writing a name adds it to the names and takes none away. -/
lemma mem_names_put (entries : Entries α) (written : String) (value : α) (name : String) :
    name ∈ (entries.put written value).names ↔ name ∈ entries.names ∨ name = written := by
  rw [names_put]
  split
  · next hthere => exact ⟨.inl, fun h => h.elim id fun heq => heq ▸ hthere⟩
  · rw [List.mem_append, List.mem_singleton]

/-- What holds of all values, and of a value that is written, holds of all values afterwards. -/
lemma forall_mem_put {P : α → Prop} {entries : Entries α} (h : ∀ pair ∈ entries, P pair.2)
    (name : String) {value : α} (hvalue : P value) : ∀ pair ∈ entries.put name value, P pair.2 := by
  induction entries with
  | nil => exact List.forall_mem_singleton.2 hvalue
  | cons first rest ih =>
    obtain ⟨key, old⟩ := first
    obtain ⟨hfirst, hrest⟩ := List.forall_mem_cons.1 h
    rw [put]
    split
    · exact List.forall_mem_cons.2 ⟨hvalue, hrest⟩
    · exact List.forall_mem_cons.2 ⟨hfirst, ih hrest⟩

/-- Entries that are kept by their names are read as before. -/
lemma get?_filter_names (entries : Entries α) (keep : String → Bool) (name : String) :
    Entries.get? (entries.filter fun pair => keep pair.1) name =
      if keep name then entries.get? name else none := by
  induction entries with
  | nil => simp
  | cons pair rest ih =>
    obtain ⟨key, value⟩ := pair
    by_cases hkey : key = name
    · subst hkey
      by_cases hkeep : keep key
      · simp [get?, hkeep]
      · simpa [get?, hkeep] using ih
    · by_cases hkeep : keep key
      · simpa [get?, hkey, hkeep] using ih
      · simpa [get?, hkey, hkeep] using ih

/-- Values that are given by their names stand before what follows them. -/
lemma get?_map_append (names : List String) (value : String → α) (entries : Entries α)
    (name : String) :
    Entries.get? (names.map (fun other => (other, value other)) ++ entries) name =
      if name ∈ names then some (value name) else entries.get? name := by
  induction names with
  | nil => simp
  | cons other rest ih =>
    by_cases hname : other = name
    · subst hname
      simp [get?]
    · simp [get?, hname, Ne.symm hname, ih]

lemma get?_append (entries others : Entries α) (name : String) :
    Entries.get? (entries ++ others) name = (entries.get? name).or (others.get? name) := by
  induction entries with
  | nil => rfl
  | cons pair rest ih =>
    obtain ⟨key, value⟩ := pair
    by_cases h : key = name
    · simp [get?, h]
    · simpa [get?, h] using ih

/-! ## Names that are given again -/

/-- The values that pairs give for a name, in order. -/
def given (pairs : List (String × α)) (name : String) : List α :=
  (pairs.filter (·.1 == name)).map (·.2)

lemma given_cons_self (name : String) (value : α) (rest : List (String × α)) :
    given ((name, value) :: rest) name = value :: given rest name := by
  simp [given]

lemma given_cons_of_ne {key name : String} (h : key ≠ name) (value : α)
    (rest : List (String × α)) : given ((key, value) :: rest) name = given rest name := by
  simp [given, h]

/-- Of pairs in which a name is repeated, the first is read. -/
theorem get?_eq_head?_given (pairs : List (String × α)) (name : String) :
    get? pairs name = (given pairs name).head? := by
  induction pairs with
  | nil => rfl
  | cons pair rest ih =>
    obtain ⟨key, value⟩ := pair
    by_cases h : key = name
    · subst h
      rw [given_cons_self, List.head?_cons, get?, if_pos rfl]
    · rw [given_cons_of_ne h, get?, if_neg h, ih]

/-- Of pairs that are written one after the other, the last is read. -/
lemma get?_putAll (entries : Entries α) (pairs : List (String × α)) (name : String) :
    (entries.putAll pairs).get? name = (given pairs name).getLast?.or (entries.get? name) := by
  induction pairs generalizing entries with
  | nil => rfl
  | cons pair rest ih =>
    obtain ⟨key, value⟩ := pair
    have hstep : entries.putAll ((key, value) :: rest) = (entries.put key value).putAll rest := rfl
    rw [hstep, ih]
    by_cases h : key = name
    · subst h
      rw [given_cons_self, get?_put_self, List.getLast?_cons]
      cases (given rest key).getLast? <;> rfl
    · rw [given_cons_of_ne h, get?_put_of_ne entries value h]

theorem get?_ofList (pairs : List (String × α)) (name : String) :
    (ofList pairs).get? name = (given pairs name).getLast? := by
  rw [ofList, get?_putAll, get?_nil, Option.or_none]

/-- A name that is new is written at the end. -/
lemma put_of_notMem {entries : Entries α} {name : String} (value : α)
    (h : name ∉ entries.names) : entries.put name value = entries ++ [(name, value)] := by
  induction entries with
  | nil => rfl
  | cons pair rest ih =>
    obtain ⟨key, old⟩ := pair
    rw [names, List.map_cons, List.mem_cons, not_or] at h
    rw [put, if_neg (Ne.symm h.1), ih h.2, List.cons_append]

lemma putAll_eq_append {entries : Entries α} {pairs : List (String × α)}
    (h : (names (entries ++ pairs)).Nodup) : entries.putAll pairs = entries ++ pairs := by
  induction pairs generalizing entries with
  | nil => exact (List.append_nil entries).symm
  | cons pair rest ih =>
    have hnew : pair.1 ∉ entries.names := by
      rw [names, List.map_append, List.nodup_append] at h
      exact fun hmem => h.2.2 _ hmem _ List.mem_cons_self rfl
    have hstep : entries.putAll (pair :: rest) = (entries.put pair.1 pair.2).putAll rest := rfl
    have happend : entries ++ [(pair.1, pair.2)] ++ rest = entries ++ pair :: rest := by simp
    rw [hstep, put_of_notMem _ hnew, ih (happend ▸ h), happend]

/-- Pairs in which no name is repeated are entries as they are. -/
lemma ofList_eq_self {pairs : List (String × α)} (h : (names pairs).Nodup) :
    ofList pairs = pairs :=
  putAll_eq_append h

end Entries

end GraphProjection
