import GraphProjection.Proofs.Loading
import GraphProjection.Proofs.Resolution
import GraphProjection.Projection.OfSelection

/-!
# The entries of a row that fields share

The rows of a type are read by its columns, by the aliases of its expressions, by the local keys
of its relations and by the foreign keys of the relations that lead to it.  Relations are attached
to the same rows, under the names of their fields.

Resolving a declaration keeps fields, aliases and columns apart from each other, but no relation
apart from anything but the other fields: it can have the name of a column.  `rows_kept_iff` says
that this is all that is missing.  Loading leaves what is read of a row alone exactly when no
relation has the name of an entry that is read.
-/

namespace GraphProjection

/-- The names under which the relations of a type are attached. -/
def OutputType.slotNames (t : OutputType) : List String :=
  (t.fields.filter (·.relation?.isSome)).map (·.name)

lemma OutputType.mem_slotNames {t : OutputType} {name : String} :
    name ∈ t.slotNames ↔ ∃ f ∈ t.fields, f.name = name ∧ f.relation?.isSome = true := by
  rw [slotNames, List.mem_map]
  refine exists_congr fun f => ?_
  rw [List.mem_filter, and_assoc, and_comm (a := f.relation?.isSome = true)]

namespace Registry

/-- An entry of the rows of a type is read: by a column or an expression of the type, or to match
rows with those of a relation, from either end. -/
inductive Reads (r : Registry) (t : OutputType) : String → Prop
  | column {f column} (hf : f ∈ t.fields) (hk : f.kind = .column column) : Reads r t column
  | computed {f outputAlias e} (hf : f ∈ t.fields) (hk : f.kind = .computed outputAlias e) :
      Reads r t outputAlias
  | localKey {f relation} (hf : f ∈ t.fields) (hk : f.kind = .relation relation) :
      Reads r t relation.localKey
  | foreignKey {name source f relation} (hs : r.describe name = .ok (some source))
      (hf : f ∈ source.fields) (hk : f.kind = .relation relation)
      (ht : r.describe (Projector.itemType (r.envelope? f.type.namedType) f.type.namedType) =
        .ok (some t)) : Reads r t relation.foreignKey

/-- No relation of a type is attached under the name of an entry that is read. -/
def SlotsApart (r : Registry) (t : OutputType) : Prop := ∀ name ∈ t.slotNames, ¬ r.Reads t name

/-- Whatever relations of a type are loaded for rows, from whatever storage: the entries of the
rows that are read stay what they were. -/
def RowsKept (r : Registry) (t : OutputType) : Prop :=
  ∀ (s : Storage) (defaultPerPage : Nat) (loads : List (RelationTarget × SelectQuery))
    (projection : Option Projection) (rows done : List Row),
    (∀ load ∈ loads, load.1.field ∈ t.slotNames) →
    (Stitching.loadAll s defaultPerPage loads projection rows).outcome = .ok done →
    List.Forall₂ (fun row row' => ∀ entry, r.Reads t entry →
      Entries.get? row' entry = Entries.get? row entry) rows done

lemma SlotsApart.rowsKept {r : Registry} {t : OutputType} (h : r.SlotsApart t) :
    r.RowsKept t := by
  intro s defaultPerPage loads projection rows done hloads hdone
  refine (Stitching.loadAll_frame hdone).imp fun row row' hrow entry hreads => ?_
  refine hrow entry fun load hload heq => ?_
  exact h _ (hloads load hload) (heq.symm ▸ hreads)

/-- A storage without rows. -/
def emptyStorage : Storage := ⟨fun _ => .ok 0, fun _ => .ok []⟩

/-- A relation without related rows is attached as an empty list, even to an empty row. -/
lemma RowsKept.slotsApart {r : Registry} {t : OutputType} (h : r.RowsKept t) :
    r.SlotsApart t := by
  intro name hname hreads
  have hloaded : (Stitching.loadAll emptyStorage 0
      [(⟨name, "", none, "", "", true⟩, SelectQuery.all "")] none [[]]).outcome =
        .ok [[(name, .array [])]] := rfl
  have hkept := h _ _ _ _ _ _ (fun load hload => by
    rw [List.mem_singleton.1 hload]
    exact hname) hloaded
  cases hkept with
  | cons hrow _ =>
    have hentry := hrow name hreads
    rw [Entries.get?_nil, Entries.get?, if_pos rfl] at hentry
    cases hentry

/-- **What keeps the entries of a row apart.**  The fields of a type that a registry describes have
distinct names, so no two relations share a slot; the aliases are distinct and none of them is a
column.  Loading relations leaves everything that is read alone exactly when, beyond that, no
relation is named like an entry that is read. -/
theorem rows_kept_iff {r : Registry} {name : String} {t : OutputType}
    (h : r.describe name = .ok (some t)) :
    t.slotNames.Nodup ∧ t.aliasNames.Nodup ∧ (∀ a ∈ t.aliasNames, a ∉ t.columnNames) ∧
      (r.RowsKept t ↔ r.SlotsApart t) := by
  obtain ⟨d, -, hd⟩ := describe_eq_some_iff.1 h
  obtain ⟨-, -, hfields, haliases, hcolumns⟩ := resolve_spec hd
  have hslots : t.slotNames.Nodup := hfields.sublist (List.filter_sublist.map _)
  exact ⟨hslots, haliases, hcolumns, RowsKept.slotsApart, SlotsApart.rowsKept⟩

/-! ## A relation under the name of a column -/

/-- Posts that keep the text of their comments in a column `comments`, which is the field `raw`,
and have their comments as a relation. -/
def rawComments : Declarations where
  types := [
    { name := "Post"
      table := some "posts"
      fields := [
        { name := "id", type := "ID!" },
        { name := "raw", type := "String", column := some "comments" },
        { name := "comments", type := "[Comment!]!"
          relation := some { localKey := some "id", foreignKey := some "post_id" } }] },
    { name := "Comment"
      table := some "comments"
      fields := [
        { name := "id", type := "ID!" },
        { name := "body", type := "String" }] }]

/-- The declarations are accepted, and posts have `comments` as a slot and as a column. -/
lemma exists_post_rawComments : ∃ r t, rawComments.build = .ok r ∧
    r.describe "Post" = .ok (some t) ∧ "comments" ∈ t.slotNames ∧ r.Reads t "comments" := by
  have hcheck : (rawComments.build.toOption.any fun r =>
      (r.describe "Post").toOption.join.any fun t =>
        t.slotNames.contains "comments" && t.columnNames.contains "comments") = true := by
    decide +kernel
  cases hr : rawComments.build with
  | error e =>
    rw [hr] at hcheck
    cases hcheck
  | ok r =>
    rw [hr] at hcheck
    have htypes : ((r.describe "Post").toOption.join.any fun t =>
        t.slotNames.contains "comments" && t.columnNames.contains "comments") = true := hcheck
    obtain ⟨t, ht, hnames⟩ := (Option.any_eq_true _ _).1 htypes
    rw [Bool.and_eq_true, List.contains_iff_mem, List.contains_iff_mem] at hnames
    obtain ⟨f, hf, hkind⟩ := OutputType.mem_columnNames.1 hnames.2
    refine ⟨r, t, rfl, ?_, hnames.1, .column hf hkind⟩
    cases hdescribed : r.describe "Post" with
    | error e =>
      rw [hdescribed] at ht
      cases ht
    | ok described =>
      rw [hdescribed] at ht
      exact congrArg Except.ok ht

/-- Attaching the comments overwrites the text that the field `raw` reads. -/
theorem rows_kept_iff_rawComments : ∃ r t, rawComments.build = .ok r ∧
    r.describe "Post" = .ok (some t) ∧ t.aliasNames.Nodup ∧ ¬ r.RowsKept t := by
  obtain ⟨r, t, hr, ht, hslot, hreads⟩ := exists_post_rawComments
  obtain ⟨-, haliases, -, hkept⟩ := rows_kept_iff ht
  exact ⟨r, t, hr, ht, haliases, fun h => hkept.1 h _ hslot hreads⟩

/-- Accepted declarations do not keep the slots of relations apart from what is read. -/
lemma not_forall_slotsApart : ¬ ∀ (d : Declarations) (r : Registry) (name : String)
    (t : OutputType), d.build = .ok r → r.describe name = .ok (some t) → r.SlotsApart t := by
  intro h
  obtain ⟨r, t, hr, ht, hslot, hreads⟩ := exists_post_rawComments
  exact h _ r _ t hr ht _ hslot hreads

end Registry

end GraphProjection
