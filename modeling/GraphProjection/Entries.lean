/-!
# Ordered entries

A row of a table, the arguments of a field, the fields of a type and the members of an object
are all the same thing: values under names, where the names keep the order in which they first
appeared.  `Entries α` is the list of those pairs.  Reading takes the first pair of a name;
writing a name that is already there keeps its place and replaces its value, so the entries
built by `put` alone never hold a name twice.

Main statements: what `get?` answers after `put` (`get?_put_self`, `get?_put_of_ne`) and after
`erase` (`get?_erase_self`, `get?_erase_of_ne`), which names are there after `put` (`names_put`),
and that `ofList` therefore has distinct names (`nodup_names_ofList`).
-/

namespace GraphProjection

/-- Values under names, in the order in which the names first appeared. -/
abbrev Entries (α : Type) := List (String × α)

namespace Entries

variable {α β : Type}

/-- The value under a name; the first one, should the name occur twice. -/
def get? : Entries α → String → Option α
  | [], _ => none
  | (key, value) :: rest, name => if key = name then some value else get? rest name

/-- Writes a value under a name: in place where the name is known, at the end where it is new. -/
def put : Entries α → String → α → Entries α
  | [], name, value => [(name, value)]
  | (key, old) :: rest, name, value =>
    if key = name then (key, value) :: rest else (key, old) :: put rest name value

/-- The entries without a name. -/
def erase (entries : Entries α) (name : String) : Entries α := entries.filter (·.1 != name)

/-- The names, in order. -/
def names (entries : Entries α) : List String := entries.map (·.1)

/-- The values, in order. -/
def values (entries : Entries α) : List α := entries.map (·.2)

/-- Whether a name is there. -/
def has (entries : Entries α) (name : String) : Bool := (entries.get? name).isSome

/-- Writes pairs one after the other, so a repeated name keeps its first place and its last
value. -/
def putAll (entries : Entries α) (pairs : List (String × α)) : Entries α :=
  pairs.foldl (fun known pair => known.put pair.1 pair.2) entries

/-- Entries from pairs in which a name may be repeated. -/
def ofList (pairs : List (String × α)) : Entries α := putAll [] pairs

/-! ## Reading after writing -/

@[simp] theorem get?_nil (name : String) : get? ([] : Entries α) name = none := rfl

theorem get?_put_self (entries : Entries α) (name : String) (value : α) :
    (entries.put name value).get? name = some value := by
  induction entries with
  | nil => simp [put, get?]
  | cons pair rest ih =>
    obtain ⟨key, old⟩ := pair
    by_cases h : key = name
    · simp [put, get?, h]
    · simpa [put, get?, h] using ih

theorem get?_put_of_ne (entries : Entries α) {name other : String} (value : α)
    (h : name ≠ other) : (entries.put name value).get? other = entries.get? other := by
  induction entries with
  | nil => simp [put, get?, h]
  | cons pair rest ih =>
    obtain ⟨key, old⟩ := pair
    by_cases hk : key = name
    · subst hk; simp [put, get?, h]
    · by_cases ho : key = other
      · subst ho; simp [put, get?, hk]
      · simpa [put, get?, hk, ho] using ih

/-! ## Reading after erasing -/

theorem get?_erase_self (entries : Entries α) (name : String) :
    (entries.erase name).get? name = none := by
  induction entries with
  | nil => rfl
  | cons pair rest ih =>
    simp only [erase] at ih
    by_cases h : pair.1 = name <;> simp [erase, get?, h, ih]

theorem get?_erase_of_ne (entries : Entries α) {name other : String} (h : name ≠ other) :
    (entries.erase name).get? other = entries.get? other := by
  induction entries with
  | nil => rfl
  | cons pair rest ih =>
    obtain ⟨key, value⟩ := pair
    simp only [erase] at ih
    by_cases hk : key = name
    · subst hk; simp [erase, get?, h, ih]
    · simp [erase, get?, hk, ih]

/-! ## The names that are there -/

theorem get?_eq_none_iff (entries : Entries α) (name : String) :
    entries.get? name = none ↔ name ∉ entries.names := by
  induction entries with
  | nil => simp [names]
  | cons pair rest ih =>
    obtain ⟨key, old⟩ := pair
    by_cases h : key = name
    · simp [get?, names, h]
    · simp only [names] at ih
      simp [get?, names, h, Ne.symm h, ih]

theorem names_put (entries : Entries α) (name : String) (value : α) :
    (entries.put name value).names =
      if name ∈ entries.names then entries.names else entries.names ++ [name] := by
  induction entries with
  | nil => simp [put, names]
  | cons pair rest ih =>
    obtain ⟨key, old⟩ := pair
    by_cases h : key = name
    · simp [put, names, h]
    · simp only [names] at ih
      by_cases hm : name ∈ rest.map (·.1)
      · simp only [put, h, names, if_false, List.map_cons, ih, hm, if_true, List.mem_cons, or_true]
      · simp only [put, h, names, if_false, List.map_cons, ih, hm, List.mem_cons, Ne.symm h,
          or_self, List.cons_append]

theorem nodup_names_put {entries : Entries α} (name : String) (value : α)
    (h : entries.names.Nodup) : (entries.put name value).names.Nodup := by
  rw [names_put]
  split
  · exact h
  · next hn => exact List.nodup_append.2 ⟨h, by simp, by simp; exact fun a ha e => hn (e ▸ ha)⟩

theorem nodup_names_putAll (pairs : List (String × α)) {entries : Entries α}
    (h : entries.names.Nodup) : (entries.putAll pairs).names.Nodup := by
  induction pairs generalizing entries with
  | nil => exact h
  | cons pair rest ih => exact ih (nodup_names_put pair.1 pair.2 h)

theorem nodup_names_ofList (pairs : List (String × α)) : (ofList pairs).names.Nodup :=
  nodup_names_putAll pairs (by simp [names])

end Entries

end GraphProjection
