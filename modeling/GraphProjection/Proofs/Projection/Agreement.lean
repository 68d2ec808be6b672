import GraphProjection.Projection
import GraphProjection.Proofs.Entries
import Mathlib.Data.List.Nodup

/-!
# Values that agree on a projection

A projection says which entries of a row are read: its columns, or every entry where it has none,
its expressions under their aliases, and its relations, whose values have projections of their
own.  Two values agree on a projection when they cannot be told apart by reading only that.

`Value.restrict` takes out of a value everything that a projection does not read, and
`Projection.agree_restrict` says that nothing is missed: a value agrees with what is left of it.
A value that belongs to a page is its envelope, and the projection is about the rows in its `data`.
-/

namespace GraphProjection

namespace Projection

/-! ## What a projection reads -/

/-- A column with the table of the projection in front of it, where there is one. -/
def qualify (p : Projection) (column : String) : String :=
  match p.table with
  | some table => table ++ "." ++ column
  | none => column

/-- An entry is among the columns of a projection, or one of its aliases. -/
def Holds (p : Projection) (name : String) : Prop :=
  p.qualify name ∈ p.columns ∨ name ∈ p.expressions.map (·.2)

/-- Whether a projection keeps an entry of a row. -/
def keeps (p : Projection) (name : String) : Bool :=
  p.columns.isEmpty || p.columns.contains (p.qualify name) || p.expressions.any (·.2 == name)

/-- An entry of a row is read for itself: it is kept, and it is not the slot of a relation. -/
def Reads (p : Projection) (name : String) : Prop :=
  p.keeps name = true ∧ p.relation? name = none

lemma Holds.keeps {p : Projection} {name : String} (h : p.Holds name) :
    p.keeps name = true := by
  rw [Projection.keeps, Bool.or_eq_true, Bool.or_eq_true]
  rcases h with hcolumn | halias
  · exact .inl (.inr (List.contains_iff_mem.2 hcolumn))
  · obtain ⟨e, he, rfl⟩ := List.mem_map.1 halias
    exact .inr (List.any_eq_true.2 ⟨e, he, beq_self_eq_true _⟩)

lemma mem_of_relation? {p : Projection} {name : String}
    {relation : RelationEntry × Projection} (h : p.relation? name = some relation) :
    relation ∈ p.relations ∧ relation.1.target.field = name :=
  ⟨List.mem_of_find?_eq_some h, by simpa using List.find?_some h⟩

lemma exists_relation?_of_mem {p : Projection} {relation : RelationEntry × Projection}
    (h : relation ∈ p.relations) :
    ∃ found, p.relation? relation.1.target.field = some found :=
  Option.isSome_iff_exists.1 (List.find?_isSome.2 ⟨relation, h, beq_self_eq_true _⟩)

/-- Where relations have slots of their own, each is found under its slot. -/
lemma relation?_of_mem {p : Projection} (h : (p.relations.map (·.1.target.field)).Nodup)
    {relation : RelationEntry × Projection} (hmem : relation ∈ p.relations) :
    p.relation? relation.1.target.field = some relation := by
  obtain ⟨found, hfound⟩ := exists_relation?_of_mem hmem
  obtain ⟨hin, hfield⟩ := mem_of_relation? hfound
  rw [hfound, List.inj_on_of_nodup_map h hin hmem hfield]

/-! ## Agreement -/

/-- Two values agree on what a projection reads.  The flag says that they belong to a page, so
that an object is the envelope of the rows that the projection is about. -/
inductive Agree : Projection → Bool → Value → Value → Prop
  | same (p : Projection) (paged : Bool) (v : Value) : Agree p paged v v
  | items {p : Projection} {paged : Bool} {vs ws : List Value} (length : vs.length = ws.length)
      (each : ∀ (n : Nat) (v w : Value), vs[n]? = some v → ws[n]? = some w → Agree p paged v w) :
      Agree p paged (.array vs) (.array ws)
  | row {p : Projection} {a b : Row}
      (entries : ∀ name, p.Reads name → a.get? name = b.get? name)
      (slots : ∀ name, (p.relation? name).isSome = true →
        (a.get? name).isSome = (b.get? name).isSome)
      (below : ∀ name entry child v w, p.relation? name = some (entry, child) →
        a.get? name = some v → b.get? name = some w → Agree child entry.page.isSome v w) :
      Agree p false (.object a) (.object b)
  | page {p : Projection} {a b : Row}
      (others : ∀ name, name ≠ "data" → a.get? name = b.get? name)
      (slot : (a.get? "data").isSome = (b.get? "data").isSome)
      (below : ∀ v w, a.get? "data" = some v → b.get? "data" = some w → Agree p false v w) :
      Agree p true (.object a) (.object b)

end Projection

/-! ## Restriction -/

mutual

/-- What is left of a value when only what a projection reads is kept. -/
def Value.restrict : Value → Projection → Bool → Value
  | .array items, p, paged => .array (Value.restrictItems items p paged)
  | .object members, p, true => .object (Value.restrictPage members p)
  | .object members, p, false => .object (Value.restrictRow members p)
  | v, _, _ => v

/-- What is left of the items of a list. -/
def Value.restrictItems : List Value → Projection → Bool → List Value
  | [], _, _ => []
  | v :: rest, p, paged => v.restrict p paged :: Value.restrictItems rest p paged

/-- What is left of an envelope: all of it, the rows in its `data` being restricted. -/
def Value.restrictPage : List (String × Value) → Projection → List (String × Value)
  | [], _ => []
  | (name, v) :: rest, p =>
    (name, if name = "data" then v.restrict p false else v) :: Value.restrictPage rest p

/-- What is left of a row: the entries that are kept, and the slots of the relations, restricted
in turn. -/
def Value.restrictRow : List (String × Value) → Projection → List (String × Value)
  | [], _ => []
  | (name, v) :: rest, p =>
    match p.relation? name with
    | some (entry, child) =>
      (name, v.restrict child entry.page.isSome) :: Value.restrictRow rest p
    | none => if p.keeps name then (name, v) :: Value.restrictRow rest p
      else Value.restrictRow rest p

end

namespace Value

lemma restrictItems_eq (items : List Value) (p : Projection) (paged : Bool) :
    restrictItems items p paged = items.map (·.restrict p paged) := by
  induction items with
  | nil => rfl
  | cons v rest ih => rw [restrictItems, ih, List.map_cons]

lemma get?_restrictPage_data (members : Row) (p : Projection) :
    Entries.get? (restrictPage members p) "data" =
      (members.get? "data").map (·.restrict p false) := by
  induction members with
  | nil => rfl
  | cons pair rest ih =>
    obtain ⟨key, v⟩ := pair
    by_cases hkey : key = "data"
    · simp [restrictPage, Entries.get?, hkey]
    · simpa [restrictPage, Entries.get?, hkey] using ih

lemma get?_restrictPage_of_ne (members : Row) (p : Projection) {name : String}
    (h : name ≠ "data") :
    Entries.get? (restrictPage members p) name = members.get? name := by
  induction members with
  | nil => rfl
  | cons pair rest ih =>
    obtain ⟨key, v⟩ := pair
    by_cases hkey : key = name
    · have hdata : key ≠ "data" := hkey ▸ h
      simp [restrictPage, Entries.get?, hkey, h]
    · simpa [restrictPage, Entries.get?, hkey] using ih

lemma get?_restrictRow_of_reads (members : Row) {p : Projection} {name : String}
    (h : p.Reads name) :
    Entries.get? (restrictRow members p) name = members.get? name := by
  obtain ⟨hkeeps, hslot⟩ := h
  induction members with
  | nil => rfl
  | cons pair rest ih =>
    obtain ⟨key, v⟩ := pair
    by_cases hkey : key = name
    · simp [restrictRow, Entries.get?, hkey, hkeeps, hslot]
    · have hrest : Entries.get? ((key, v) :: rest) name = Entries.get? rest name :=
        if_neg hkey
      rw [hrest, restrictRow, ← ih]
      split
      · exact if_neg hkey
      · split
        · exact if_neg hkey
        · rfl

lemma get?_restrictRow_of_relation (members : Row) {p child : Projection} {name : String}
    {entry : RelationEntry} (h : p.relation? name = some (entry, child)) :
    Entries.get? (restrictRow members p) name =
      (members.get? name).map (·.restrict child entry.page.isSome) := by
  induction members with
  | nil => rfl
  | cons pair rest ih =>
    obtain ⟨key, v⟩ := pair
    by_cases hkey : key = name
    · simp [restrictRow, Entries.get?, hkey, h]
    · have hrest : Entries.get? ((key, v) :: rest) name = Entries.get? rest name :=
        if_neg hkey
      rw [hrest, restrictRow, ← ih]
      split
      · exact if_neg hkey
      · split
        · exact if_neg hkey
        · rfl

end Value

namespace Projection

/-! ## A value agrees with what is left of it -/

lemma agree_restrictItems {items : List Value} {p : Projection} {paged : Bool}
    (h : ∀ v ∈ items, Agree p paged v (v.restrict p paged)) :
    Agree p paged (.array items) (.array (Value.restrictItems items p paged)) := by
  rw [Value.restrictItems_eq]
  refine .items (by simp) fun n v w hv hw => ?_
  rw [List.getElem?_map, hv] at hw
  cases hw
  exact h v (List.mem_of_getElem? hv)

lemma agree_restrictPage {members : Row} {p : Projection}
    (h : ∀ pair ∈ members, Agree p false pair.2 (pair.2.restrict p false)) :
    Agree p true (.object members) (.object (Value.restrictPage members p)) := by
  refine .page (fun name hname => (Value.get?_restrictPage_of_ne members p hname).symm) ?_ ?_
  · rw [Value.get?_restrictPage_data, Option.isSome_map]
  · intro v w hv hw
    rw [Value.get?_restrictPage_data, hv] at hw
    cases hw
    exact h _ (Entries.mem_of_get?_eq_some hv)

lemma agree_restrictRow {members : Row} {p : Projection}
    (h : ∀ pair ∈ members, ∀ child paged, Agree child paged pair.2 (pair.2.restrict child paged)) :
    Agree p false (.object members) (.object (Value.restrictRow members p)) := by
  refine .row (fun name hname => (Value.get?_restrictRow_of_reads members hname).symm) ?_ ?_
  · intro name hslot
    obtain ⟨⟨entry, child⟩, hfound⟩ := Option.isSome_iff_exists.1 hslot
    rw [Value.get?_restrictRow_of_relation members hfound, Option.isSome_map]
  · intro name entry child v w hfound hv hw
    rw [Value.get?_restrictRow_of_relation members hfound, hv] at hw
    cases hw
    exact h _ (Entries.mem_of_get?_eq_some hv) child _

mutual

/-- A value agrees with what a projection leaves of it. -/
theorem agree_restrict : (v : Value) → (p : Projection) → (paged : Bool) →
    Agree p paged v (v.restrict p paged)
  | .array items, p, paged => by
    rw [Value.restrict]
    exact agree_restrictItems fun v hv => forall_agree_items items v hv p paged
  | .object members, p, true => by
    rw [Value.restrict]
    exact agree_restrictPage fun pair hpair => forall_agree_members members pair hpair p false
  | .object members, p, false => by
    rw [Value.restrict]
    exact agree_restrictRow fun pair hpair => forall_agree_members members pair hpair
  | .null, p, paged => .same p paged _
  | .bool _, p, paged => .same p paged _
  | .int _, p, paged => .same p paged _
  | .double _, p, paged => .same p paged _
  | .string _, p, paged => .same p paged _

lemma forall_agree_items : (items : List Value) → ∀ v ∈ items, ∀ (p : Projection)
    (paged : Bool), Agree p paged v (v.restrict p paged)
  | [], _, hv, _, _ => absurd hv List.not_mem_nil
  | first :: rest, v, hv, p, paged => by
    rcases List.mem_cons.1 hv with heq | hv
    · exact heq ▸ agree_restrict first p paged
    · exact forall_agree_items rest v hv p paged

lemma forall_agree_members : (members : List (String × Value)) → ∀ pair ∈ members,
    ∀ (p : Projection) (paged : Bool), Agree p paged pair.2 (pair.2.restrict p paged)
  | [], _, hpair, _, _ => absurd hpair List.not_mem_nil
  | (_, first) :: rest, pair, hpair, p, paged => by
    rcases List.mem_cons.1 hpair with heq | hpair
    · exact heq ▸ agree_restrict first p paged
    · exact forall_agree_members rest pair hpair p paged

end

end Projection

/-! ## Projections that leave everything -/

namespace Value

open Projection

mutual

/-- A projection without columns and relations leaves a value as it is. -/
lemma restrict_ofTable : (v : Value) → (table : Option String) → (paged : Bool) →
    v.restrict (ofTable table) paged = v
  | .array items, table, paged => by
    rw [restrict, restrictItems_ofTable items table paged]
  | .object members, table, true => by
    rw [restrict, restrictPage_ofTable members table]
  | .object members, table, false => by
    rw [restrict, restrictRow_ofTable members table]
  | .null, _, _ => rfl
  | .bool _, _, _ => rfl
  | .int _, _, _ => rfl
  | .double _, _, _ => rfl
  | .string _, _, _ => rfl

lemma restrictItems_ofTable : (items : List Value) → (table : Option String) →
    (paged : Bool) → restrictItems items (ofTable table) paged = items
  | [], _, _ => rfl
  | v :: rest, table, paged => by
    rw [restrictItems, restrict_ofTable v table paged, restrictItems_ofTable rest table paged]

lemma restrictPage_ofTable : (members : List (String × Value)) → (table : Option String) →
    restrictPage members (ofTable table) = members
  | [], _ => rfl
  | (name, v) :: rest, table => by
    rw [restrictPage, restrict_ofTable v table false, restrictPage_ofTable rest table, ite_self]

lemma restrictRow_ofTable : (members : List (String × Value)) → (table : Option String) →
    restrictRow members (ofTable table) = members
  | [], _ => rfl
  | (name, v) :: rest, table => by
    have hslot : (ofTable table).relation? name = none := rfl
    have hkeeps : (ofTable table).keeps name = true := rfl
    rw [restrictRow, hslot, hkeeps, restrictRow_ofTable rest table]
    rfl

end

end Value

end GraphProjection
