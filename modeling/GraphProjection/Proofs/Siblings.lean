import GraphProjection.Proofs.Calls
import GraphProjection.Proofs.Isolation
import GraphProjection.Proofs.Paging

/-!
# What siblings change

A field that is not selectable, and one with a resolver of its own, read the row without adding to
the projection (`FieldDescriptor.MadeOf`).  What they find there is up to the fields beside them: as
long as nothing is selected by name every column is there, and with the first column that is named
the others are gone.

For a request that is answered, this is said of every stored row: under the response key of such a
field stands what the field makes of what the query shows of the row (`valuesUnder_of_answersWith`).
Main statement: **`eq_iff_of_siblings`**, which compares two requests for the same field over the
same stored rows.
-/

namespace GraphProjection

open FieldNode Stitching

/-! ## What a query shows of a stored row -/

namespace SelectQuery

/-- What a query finds under a name in a stored row. -/
def found? (q : SelectQuery) (stored : Row) (name : String) : Option Value :=
  if q.Selects name then stored.get? name else none

/-- A query puts nothing of its own under a name, no expression and no relation. -/
def LeavesAlone (q : SelectQuery) (name : String) : Prop :=
  name ∉ q.expressions.map (·.2) ∧ ∀ load ∈ q.eagerLoads, load.1.field ≠ name

end SelectQuery

lemma Shows.get?_eq_found? {computed : Row → List (String × String) → String → Value}
    {q : SelectQuery} {stored row : Row} (h : Shows computed q stored row) {name : String}
    (halias : name ∉ q.expressions.map (·.2)) : row.get? name = q.found? stored name := by
  rw [SelectQuery.found?]
  split
  · next hselects => exact h.columns name halias hselects
  · next hselects => exact h.others name halias hselects

/-! ## Fields that are made of an entry -/

/-- The value of a field is made of one entry of the row, and no query is told about it: the field
is not selectable, or a resolver of its own looks the entry up. -/
inductive FieldDescriptor.MadeOf (f : FieldDescriptor) :
    String → (Arguments → Option Value → Value) → Prop
  | notSelectable (stored : f.resolver = none) (kind : f.kind = .notSelectable) :
      MadeOf f f.name fun _ found => (Shaper.leaf f found).value
  | resolver {resolver : Resolver} {entry : String} {make : Arguments → Option Value → Value}
      (own : f.resolver = some resolver)
      (reads : ∀ row arguments, resolver row arguments = make arguments (row.get? entry)) :
      MadeOf f entry make

/-- What such a field shows of an entry, which is null where its privacy rule denies it. -/
def FieldDescriptor.shown (f : FieldDescriptor) (services : ServiceLocator)
    (make : Arguments → Option Value → Value) (arguments : Arguments) (found : Option Value) :
    Value :=
  if f.allows arguments services then make arguments found else .null

/-- What the rows of a value have under a key: the rows of a list, or the row that the value is. -/
def Value.valuesUnder (key : String) : Value → List (Option Value)
  | .null => []
  | .array items => items.map (·.member? key)
  | v => [v.member? key]

/-- A value holds rows: all of a list, a single one, or none. -/
inductive Value.HoldsRows : Value → List Row → Prop
  | list (rows : List Row) : HoldsRows (.array (rows.map .object)) rows
  | one (row : Row) : HoldsRows (.object row) [row]
  | none : HoldsRows .null []

namespace Shaper

variable {x : Shaper} {shaped : Shaped} {f : FieldDescriptor} {entry : String}
  {make : Arguments → Option Value → Value}

lemma fieldValue_of_madeOf (h : f.MadeOf entry make) (row : Row) (below : Below)
    (g : ResponseField) :
    x.fieldValue f row below g =
      .ok (.pure (f.shown x.services make g.node.arguments (row.get? entry))) := by
  rw [fieldValue, FieldDescriptor.shown]
  cases f.allows g.node.arguments x.services with
  | false => rfl
  | true =>
    cases h with
    | notSelectable stored kind => simp only [stored, kind]; rfl
    | resolver own reads => simp only [own, reads]; rfl

/-- What is shaped for a field stands under its key. -/
lemma get?_of_shapeFields {shape : ResponseField → ShapeResult} {fields : List ResponseField}
    (hkeys : (fields.map (·.key)).Nodup) {members : Row} {errors : List FieldError}
    (h : shapeFields shape fields = .ok (members, errors)) {g : ResponseField} (hg : g ∈ fields) :
    ∃ shaped, shape g = .ok shaped ∧ Entries.get? members g.key = some shaped.value := by
  induction fields generalizing members errors with
  | nil => cases hg
  | cons first rest ih =>
    rw [List.map_cons, List.nodup_cons] at hkeys
    rw [shapeFields] at h
    split at h
    · cases h
    · next own hown =>
      split at h
      · cases h
      · next others later hothers =>
        cases h
        rw [Entries.get?]
        rcases List.mem_cons.1 hg with rfl | hg
        · exact ⟨own, hown, if_pos rfl⟩
        · obtain ⟨shaped, hshaped, hfound⟩ := ih hkeys.2 hothers hg
          have hne : first.key ≠ g.key := fun heq => hkeys.1 (heq ▸ List.mem_map_of_mem hg)
          exact ⟨shaped, hshaped, (if_neg hne).trans hfound⟩

lemma get?_of_shapeObject {shape : ResponseField → ShapeResult} {nodes : List FieldNode}
    (h : shapeObject shape nodes = .ok shaped) :
    ∃ members, shaped.value = .object members ∧ ∀ g ∈ grouped nodes,
      ∃ own, shape g = .ok own ∧ Entries.get? members g.key = some own.value := by
  rw [shapeObject] at h
  split at h
  · cases h
  · next members errors hfields =>
    cases h
    exact ⟨members, rfl, fun g hg => get?_of_shapeFields (nodup_key_grouped nodes) hfields hg⟩

lemma shapeItems_eq_ok {type : String} {nodes : List FieldNode} {vs values : List Value}
    {n : Nat} {errors : List FieldError}
    (h : shapeItems x vs n type nodes = .ok (values, errors)) :
    List.Forall₂ (fun v value => ∃ shaped, x.shapeValue v type nodes = .ok shaped ∧
      value = shaped.value) vs values := by
  induction vs generalizing n values errors with
  | nil =>
    rw [shapeItems] at h
    cases h
    exact .nil
  | cons v rest ih =>
    rw [shapeItems] at h
    split at h
    · cases h
    · next own hown =>
      split at h
      · cases h
      · next others later hothers =>
        cases h
        exact .cons ⟨own, hown, rfl⟩ (ih hothers)

section Rows

variable {type : String} {t : OutputType} {selected : List FieldNode} {g : ResponseField}

lemma member?_of_shapeRow (hnone : x.registry.envelope? type = none)
    (ht : x.registry.describe type = .ok (some t)) (hg : g ∈ grouped selected)
    (htypename : g.node.name ≠ typename) (hf : t.field? g.node.name = some f)
    (hmade : f.MadeOf entry make) {row : Row}
    (h : x.shapeValue (.object row) type selected = .ok shaped) :
    ∃ members, shaped.value = .object members ∧ shaped.value.member? g.key =
      some (f.shown x.services make g.node.arguments (row.get? entry)) := by
  rw [shapeValue, shapeMembersAs] at h
  simp only [hnone, ht] at h
  obtain ⟨members, hmembers, hfound⟩ := get?_of_shapeObject h
  obtain ⟨own, hown, hkey⟩ := hfound g hg
  rw [rowField, if_neg htypename, hf] at hown
  simp only [fieldValue_of_madeOf hmade] at hown
  cases hown
  exact ⟨members, hmembers, hmembers ▸ hkey⟩

/-- The rows of a shaped value have, under the key of a field that is made of an entry, what the
field shows of the entry. -/
theorem valuesUnder_of_shapeValue (hnone : x.registry.envelope? type = none)
    (ht : x.registry.describe type = .ok (some t)) (hg : g ∈ grouped selected)
    (htypename : g.node.name ≠ typename) (hf : t.field? g.node.name = some f)
    (hmade : f.MadeOf entry make) {v : Value} {rows : List Row} (hv : v.HoldsRows rows)
    (h : x.shapeValue v type selected = .ok shaped) :
    shaped.value.valuesUnder g.key =
      rows.map fun row => some (f.shown x.services make g.node.arguments (row.get? entry)) := by
  cases hv with
  | none =>
    rw [shapeValue] at h
    cases h
    rfl
  | one row =>
    obtain ⟨members, hmembers, hkey⟩ := member?_of_shapeRow hnone ht hg htypename hf hmade h
    rw [hmembers, Value.valuesUnder, ← hmembers, hkey]
    · rfl
    all_goals simp
  | list =>
    rw [shapeValue] at h
    split at h
    · cases h
    · next values errors hitems =>
      cases h
      have hshaped := List.forall₂_map_left_iff.1 (shapeItems_eq_ok hitems)
      rw [Value.valuesUnder, ← List.forall₂_eq_eq_eq]
      refine List.forall₂_map_left_iff.2 (List.forall₂_map_right_iff.2 (hshaped.flip.imp ?_))
      rintro value row ⟨own, hown, rfl⟩
      obtain ⟨_, -, hkey⟩ := member?_of_shapeRow hnone ht hg htypename hf hmade hown
      exact hkey

end Rows

end Shaper

/-! ## Queries for the same rows -/

namespace SelectQuery

lemma SameRows.editAll {q q' : SelectQuery} (h : SameRows q q') (edits : List Edit) :
    SameRows (q.editAll edits) (q'.editAll edits) := by
  induction edits generalizing q q' with
  | nil =>
    rw [SelectQuery.editAll, SelectQuery.editAll]
    exact h
  | cons e rest ih =>
    rw [SelectQuery.editAll, SelectQuery.editAll]
    refine ih ?_
    cases e with
    | select columns => exact ⟨h.table, h.conditions, h.limit, h.offset⟩
    | selectRaw expression outputAlias => exact ⟨h.table, h.conditions, h.limit, h.offset⟩
    | whereEq column value =>
      have hconditions : q.conditions ++ [.equals column value] =
          q'.conditions ++ [.equals column value] := by
        rw [h.conditions]
      exact ⟨h.table, hconditions, h.limit, h.offset⟩
    | load target below => exact ⟨h.table, h.conditions, h.limit, h.offset⟩

end SelectQuery

namespace Schema

variable {s : Schema} {storage : Storage} {field : RootField} {r r' : ResponseField}
  {p p' : Prepared} {whole : WholeRows}
  {computed : Row → List (String × String) → String → Value}

/-- What the same root field is prepared with for the same arguments asks for the same rows. -/
lemma sameRows_rowsQuery (hp : s.prepare field r = .ok p) (hp' : s.prepare field r' = .ok p')
    (harguments : r'.node.arguments = r.node.arguments) :
    (s.rowsQuery field p r.node.arguments).SameRows
      (s.rowsQuery field p' r'.node.arguments) := by
  obtain ⟨bound, q, hbound, -, rfl⟩ := prepare_eq_ok_iff.1 hp
  obtain ⟨bound', q', hbound', -, rfl⟩ := prepare_eq_ok_iff.1 hp'
  rw [harguments] at hbound' ⊢
  cases hbound.symm.trans hbound'
  have hsame : (prepared field.declaration r.node.arguments bound
      (rootProjection field q)).query.SameRows
      (prepared field.declaration r.node.arguments bound (rootProjection field q')).query := by
    refine SelectQuery.SameRows.editAll ?_ _
    rw [Projection.applyTo, Projection.applyTo, Projection.editAll_edits,
      Projection.editAll_edits]
    exact ⟨rfl, rfl, rfl, rfl⟩
  rw [rowsQuery, rowsQuery]
  split
  · split
    · exact ⟨hsame.table, hsame.conditions, rfl, rfl⟩
    · exact hsame
  · split
    · exact hsame
    · exact ⟨hsame.table, hsame.conditions, rfl, hsame.offset⟩

/-! ## Rows that are fetched and completed -/

/-- A row was fetched by a query for a stored row, and completed: what the query leaves alone is
what it finds in the stored row. -/
def Completes (q : SelectQuery) (stored row : Row) : Prop :=
  ∀ name, q.LeavesAlone name → row.get? name = q.found? stored name

/-- A limit and an offset change nothing about what a row shows. -/
theorem completes_rowsQuery_iff {arguments : Arguments} {stored row : Row} :
    Completes (s.rowsQuery field p arguments) stored row ↔ Completes p.query stored row := by
  rw [rowsQuery]
  split
  · split <;> exact Iff.rfl
  · split <;> exact Iff.rfl

/-- The rows that a root field shows, of those that are fetched for it. -/
def keptRows (s : Schema) (field : RootField) (arguments : Arguments) (rows : List Row) :
    List Row :=
  match s.registry.envelope? field.type.namedType with
  | some (kind, _) =>
    match PageRequest.ofArguments kind arguments s.registry.settings.defaultPerPage with
    | .ok page => rows.take page.perPage
    | .error _ => []
  | none => if field.type.isList then rows else rows.take 1

/-- The stored rows that a root field shows. -/
def storedRows (s : Schema) (whole : WholeRows) (field : RootField) (p : Prepared)
    (arguments : Arguments) : Except StorageError (List Row) :=
  let q := s.rowsQuery field p arguments
  (whole q.table q.conditions q.limit q.offset).map (s.keptRows field arguments)

/-- A value holds the rows of a root field, a page of them in an envelope. -/
inductive HoldsFetched : Bool → Value → List Row → Prop
  | plain {v : Value} {rows : List Row} (holds : v.HoldsRows rows) : HoldsFetched false v rows
  | page {members : Row} {v : Value} {rows : List Row}
      (data : Entries.get? members "data" = some v) (holds : v.HoldsRows rows) :
      HoldsFetched true (.object members) rows

lemma completes_of_fetchRows (hs : storage.Narrows whole computed) {query : SelectQuery}
    {keep : List Row → List Row} (hkeep : ∀ (R : Row → Row → Prop) (as bs : List Row),
      List.Forall₂ R as bs → List.Forall₂ R (keep as) (keep bs)) {done : List Row}
    (h : (s.fetchRows storage p query keep).outcome = .ok done) :
    ∃ all, whole query.table query.conditions query.limit query.offset = .ok all ∧
      List.Forall₂ (Completes query) (keep all) done := by
  rw [fetchRows] at h
  obtain ⟨fetched, hfetched, hdone⟩ := Traced.outcome_andThen_eq_ok_iff.1 h
  rw [loadQuery_eq] at hdone
  rw [Storage.outcome_traceFetch_eq_ok_iff] at hfetched
  have hshows := hs.fetch query
  rw [hfetched] at hshows
  generalize whole query.table query.conditions query.limit query.offset = outcome at hshows
  cases hshows with
  | ok hshows =>
    refine ⟨_, rfl, forall₂_of_common ?_ (hkeep _ _ _ hshows).flip (loadAll_frame hdone)⟩
    intro row stored completed hrow hframe name hname
    rw [hframe name hname.2]
    exact hrow.get?_eq_found? hname.1

/-- A value holds the rows that are stored for a query, of those the ones that are kept, and
completed. -/
def HoldsStored (whole : WholeRows) (query : SelectQuery) (keep : List Row → List Row)
    (paged : Bool) (value : Value) : Prop :=
  ∃ all done, whole query.table query.conditions query.limit query.offset = .ok all ∧
    List.Forall₂ (Completes query) (keep all) done ∧ HoldsFetched paged value done

lemma holdsStored_of_fetchPage (hs : storage.Narrows whole computed) {kind : PageKind}
    {arguments : Arguments} {value : Value}
    (h : (s.fetchPage storage p kind arguments).outcome = .ok value) :
    ∃ page, PageRequest.ofArguments kind arguments s.registry.settings.defaultPerPage = .ok page ∧
      HoldsStored whole ((p.query.withLimit page.limit).withOffset page.offset)
        (·.take page.perPage) true value := by
  rw [fetchPage] at h
  cases hpage : PageRequest.ofArguments kind arguments s.registry.settings.defaultPerPage with
  | error e =>
    rw [hpage] at h
    cases h
  | ok page =>
    rw [hpage] at h
    obtain ⟨total, -, h⟩ := Traced.outcome_andThen_eq_ok_iff.1 h
    obtain ⟨rows, hrows, h⟩ := Traced.outcome_andThen_eq_ok_iff.1 h
    cases h
    obtain ⟨all, hall, hdone⟩ := completes_of_fetchRows hs (fun R as bs hR => hR) hrows
    refine ⟨page, rfl, all, rows.take page.perPage, hall, List.forall₂_take page.perPage hdone, ?_⟩
    rw [PageRequest.envelope]
    cases page.kind with
    | offset => exact .page (if_pos rfl) (.list _)
    | simple => exact .page (if_pos rfl) (.list _)
    | cursor => exact .page (if_pos rfl) (.list _)

lemma holdsStored_of_fetchList (hs : storage.Narrows whole computed) {value : Value}
    (h : (s.fetchList storage p).outcome = .ok value) :
    HoldsStored whole p.query id false value := by
  rw [fetchList] at h
  obtain ⟨rows, hrows, h⟩ := Traced.outcome_andThen_eq_ok_iff.1 h
  cases h
  obtain ⟨all, hall, hdone⟩ := completes_of_fetchRows hs (fun R as bs hR => hR) hrows
  exact ⟨all, rows, hall, hdone, .plain (.list rows)⟩

lemma holdsStored_of_fetchOne (hs : storage.Narrows whole computed) {name : String}
    {type : TypeRef} {value : Value} (h : (s.fetchOne storage p name type).outcome = .ok value) :
    HoldsStored whole (p.query.withLimit 1) (·.take 1) false value := by
  rw [fetchOne] at h
  obtain ⟨rows, hrows, h⟩ := Traced.outcome_andThen_eq_ok_iff.1 h
  obtain ⟨all, hall, hdone⟩ := completes_of_fetchRows hs
    (fun R as bs hR => List.forall₂_take 1 hR) hrows
  refine ⟨all, rows, hall, hdone, .plain ?_⟩
  have hlength : rows.length ≤ 1 := by
    rw [← hdone.length_eq]
    exact List.length_take_le 1 all
  rcases rows with - | ⟨row, - | ⟨next, rest⟩⟩
  · simp only at h
    split at h
    · cases h
    · cases h
      exact .none
  · cases h
    exact .one row
  · simp at hlength

/-- The value of a root field holds the rows that are stored for it. -/
lemma holdsStored_of_fetchValue (hs : storage.Narrows whole computed) {value : Value}
    (h : (s.fetchValue storage field p r).outcome = .ok value) :
    HoldsStored whole (s.rowsQuery field p r.node.arguments)
      (s.keptRows field r.node.arguments)
      (s.registry.envelope? field.type.namedType).isSome value := by
  rw [fetchValue] at h
  unfold rowsQuery keptRows
  cases henvelope : s.registry.envelope? field.type.namedType with
  | some pair =>
    simp only [henvelope] at h
    obtain ⟨page, hpage, hholds⟩ := holdsStored_of_fetchPage hs h
    simp only [hpage]
    exact hholds
  | none =>
    simp only [henvelope] at h
    split at h
    · next hlist =>
      simp only [if_pos hlist]
      exact holdsStored_of_fetchList hs h
    · next hone =>
      simp only [if_neg hone]
      exact holdsStored_of_fetchOne hs h

lemma exists_rows_of_fetchValue (hs : storage.Narrows whole computed) {value : Value}
    (h : (s.fetchValue storage field p r).outcome = .ok value) :
    ∃ stored done, s.storedRows whole field p r.node.arguments = .ok stored ∧
      List.Forall₂ (Completes p.query) stored done ∧
      HoldsFetched (s.registry.envelope? field.type.namedType).isSome value done := by
  obtain ⟨all, done, hall, hdone, hholds⟩ := holdsStored_of_fetchValue hs h
  refine ⟨_, done, ?_, hdone.imp fun _ _ => completes_rowsQuery_iff.1, hholds⟩
  rw [storedRows, hall]
  rfl

/-! ## Requests over the same rows -/

/-- Where the rows of a root field stand in its answer, and what is selected of them: for a page
under the key of its data. -/
inductive RowsAt (s : Schema) (field : RootField) (r : ResponseField) :
    Value → List FieldNode → Value → Prop
  | plain {v : Value} (plain : s.registry.envelope? field.type.namedType = none) :
      RowsAt s field r v r.children v
  | page {v items : Value} {d : ResponseField}
      (paged : (s.registry.envelope? field.type.namedType).isSome = true)
      (mem : d ∈ grouped r.children) (data : d.node.name = "data")
      (member : v.member? d.key = some items) : RowsAt s field r v d.children items

/-- A root field is answered, and of its rows, which stand somewhere in the answer, a field is
requested under a key. -/
structure AnswersWith (s : Schema) (storage : Storage) (field : RootField) (r : ResponseField)
    (p : Prepared) (t : OutputType) (f : FieldDescriptor) (items : Value) (g : ResponseField) :
    Prop where
  found : s.field? r.node.name = some field
  prepared : s.prepare field r = .ok p
  answered : ∃ shaped selected, (s.resolveRoot storage r).outcome = .ok shaped ∧
    s.RowsAt field r shaped.value selected items ∧ g ∈ grouped selected
  named : g.node.name ≠ typename
  requested : t.field? g.node.name = some f

section Answered

variable {t : OutputType} {f : FieldDescriptor} {entry : String}
  {make : Arguments → Option Value → Value} {items items' : Value} {g g' : ResponseField}

lemma valuesUnder_of_rowsAt (hnames : s.registry.EnvelopesApart)
    (ht : s.registry.describe (Projector.itemType (s.registry.envelope? field.type.namedType)
      field.type.namedType) = .ok (some t))
    (hmade : f.MadeOf entry make) {value : Value} {rows : List Row} {shaped : Shaped}
    (hholds : HoldsFetched (s.registry.envelope? field.type.namedType).isSome value rows)
    (hshaped : Shaper.shape ⟨s.registry, s.services⟩ field.type.namedType value r.children =
      .ok shaped)
    {selected : List FieldNode} (hrows : s.RowsAt field r shaped.value selected items)
    (hg : g ∈ grouped selected) (htypename : g.node.name ≠ typename)
    (hf : t.field? g.node.name = some f) :
    items.valuesUnder g.key =
      rows.map fun row => some (f.shown s.services make g.node.arguments (row.get? entry)) := by
  rw [Shaper.shape] at hshaped
  cases hrows with
  | plain plain =>
    rw [plain] at ht hholds
    cases hholds with
    | plain holds =>
      exact Shaper.valuesUnder_of_shapeValue (x := ⟨s.registry, s.services⟩) plain ht hg
        htypename hf hmade holds hshaped
  | @page _ d paged mem data member =>
    obtain ⟨⟨kind, item⟩, henvelope⟩ := Option.isSome_iff_exists.1 paged
    rw [henvelope] at ht hholds
    cases hholds with
    | @page members v rows hdata holds =>
      rw [Shaper.shapeValue, Shaper.shapeMembersAs] at hshaped
      simp only [henvelope] at hshaped
      obtain ⟨answer, hanswer, hfound⟩ := Shaper.get?_of_shapeObject hshaped
      obtain ⟨own, hown, hkey⟩ := hfound d mem
      -- There may be several fields for the data; the rows are those under the key of this one.
      have hitems : items = own.value := by
        rw [hanswer, Value.member?, hkey] at member
        exact (Option.some.inj member).symm
      have hnot : d.node.name ≠ typename := by
        rw [data]
        decide
      rw [Shaper.envelopeField, if_neg hnot, if_pos data, Shaper.shapeMember,
        Shaper.get?_shapeMembers, hdata] at hown
      rw [hitems]
      exact Shaper.valuesUnder_of_shapeValue (x := ⟨s.registry, s.services⟩)
        (hnames.item henvelope) ht hg htypename hf hmade holds hown

/-- **What stands under the key of a field that is made of an entry.**  In every answer, and for
every stored row that is shown, it is what the field makes of what the query finds in the row. -/
theorem valuesUnder_of_answersWith (hs : storage.Narrows whole computed)
    (hnames : s.registry.EnvelopesApart)
    (ht : s.registry.describe (Projector.itemType (s.registry.envelope? field.type.namedType)
      field.type.namedType) = .ok (some t))
    (hmade : f.MadeOf entry make) (halone : p.query.LeavesAlone entry)
    (h : s.AnswersWith storage field r p t f items g) :
    ∃ stored, s.storedRows whole field p r.node.arguments = .ok stored ∧
      items.valuesUnder g.key = stored.map fun row =>
        some (f.shown s.services make g.node.arguments (p.query.found? row entry)) := by
  obtain ⟨shaped, selected, hok, hrows, hg⟩ := h.answered
  obtain ⟨field', p', value, hfield, hp, hvalue, -, hshaped⟩ :=
    exists_fetchValue_of_resolveRoot hok
  cases h.found.symm.trans hfield
  cases h.prepared.symm.trans hp
  obtain ⟨stored, done, hstored, hdone, hholds⟩ := exists_rows_of_fetchValue hs hvalue
  refine ⟨stored, hstored, ?_⟩
  rw [valuesUnder_of_rowsAt hnames ht hmade hholds hshaped hrows hg h.named h.requested,
    ← List.forall₂_eq_eq_eq]
  refine List.forall₂_map_left_iff.2 (List.forall₂_map_right_iff.2 (hdone.flip.imp ?_))
  intro row stored hcompletes
  rw [hcompletes entry halone]

/-- **A field that is made of an entry has siblings that change it.**  Two requests for the field,
under one key and with the same arguments, are answered over the same stored rows.  Each row shows
what the field makes of the entry where the query selects it, and of a missing one where it does
not; so the values are the same exactly if both queries select the entry or neither does, or the
field makes nothing of the entries that are there. -/
theorem eq_iff_of_siblings (hs : storage.Narrows whole computed)
    (hnames : s.registry.EnvelopesApart)
    (ht : s.registry.describe (Projector.itemType (s.registry.envelope? field.type.namedType)
      field.type.namedType) = .ok (some t))
    (hmade : f.MadeOf entry make) (halone : p.query.LeavesAlone entry)
    (halone' : p'.query.LeavesAlone entry)
    (h : s.AnswersWith storage field r p t f items g)
    (h' : s.AnswersWith storage field r' p' t f items' g')
    (hroot : r'.node.arguments = r.node.arguments) (hkey : g'.key = g.key)
    (harguments : g'.node.arguments = g.node.arguments) :
    ∃ stored, s.storedRows whole field p r.node.arguments = .ok stored ∧
      items.valuesUnder g.key = stored.map (fun row =>
        some (f.shown s.services make g.node.arguments (p.query.found? row entry))) ∧
      items'.valuesUnder g.key = stored.map (fun row =>
        some (f.shown s.services make g.node.arguments (p'.query.found? row entry))) ∧
      (items.valuesUnder g.key = items'.valuesUnder g.key ↔
        (p.query.Selects entry ↔ p'.query.Selects entry) ∨
          ∀ row ∈ stored, f.shown s.services make g.node.arguments (row.get? entry) =
            f.shown s.services make g.node.arguments none) := by
  obtain ⟨stored, hstored, hvalues⟩ := valuesUnder_of_answersWith hs hnames ht hmade halone h
  obtain ⟨stored', hstored', hvalues'⟩ :=
    valuesUnder_of_answersWith hs hnames ht hmade halone' h'
  -- Which rows are fetched depends on the arguments of the root field, and those are equal.
  have hrows := sameRows_rowsQuery h.prepared h'.prepared hroot
  have hsame : stored' = stored := by
    rw [storedRows, ← hrows.table, ← hrows.conditions, ← hrows.limit, ← hrows.offset, hroot]
      at hstored'
    exact Except.ok.inj (hstored'.symm.trans hstored)
  rw [hkey, harguments, hsame] at hvalues'
  refine ⟨stored, hstored, hvalues, hvalues', ?_⟩
  rw [hvalues, hvalues', List.map_inj_left]
  simp only [Option.some.injEq, SelectQuery.found?]
  -- If just one of the two queries selects the entry, the other shows what it shows of nothing.
  by_cases hselects : p.query.Selects entry <;> by_cases hselects' : p'.query.Selects entry
  · simp [hselects, hselects']
  · simp [hselects, hselects']
  · simp [hselects, hselects', eq_comm]
  · simp [hselects, hselects']

end Answered

/-! ## A post that is published, or not -/

/-- Posts in a list. -/
def publishedPosts : RootField :=
  ⟨{ name := "posts", type := "[Post!]!", table := "posts" }, .list (.named "Post" true) true⟩

/-- Posts have a title, and no query is told to select whether they are published. -/
def publishing : Schema where
  registry := {
    settings := {}
    types := [
      { name := "Post"
        table := some "posts"
        fields := [
          { name := "title", type := "String" },
          { name := "isPublished", type := "Boolean!", selectable := false }] }] }
  services := fun _ => none
  fields := [publishedPosts]

/-- The field that no query is told about. -/
def isPublished : FieldDescriptor :=
  ⟨"isPublished", .named "Boolean" true, .notSelectable, false, none, none⟩

/-- A single post, which is published. -/
def publishedRows : WholeRows := fun _ _ _ _ =>
  .ok [[("title", .string "Rows"), ("isPublished", .bool true)]]

/-- The storage of the post. -/
def publishedStorage : Storage := publishedRows.storage fun _ _ _ => .null

/-- Whether posts are published, and what is selected beside it. -/
def publishedWith (others : List FieldNode) : ResponseField :=
  ⟨Shaper.plainNode "posts" [], Shaper.plainNode "isPublished" [] :: others⟩

/-- The type of posts. -/
def publishedPost : OutputType :=
  ⟨"Post", some "posts",
    [⟨"title", .named "String" false, .column "title", false, none, none⟩, isPublished]⟩

lemma envelopesApart_publishing : publishing.registry.EnvelopesApart :=
  Registry.envelopesApart_of_typeNames (by decide +kernel)

/-- Alone, the field is answered of a query that selects every column. -/
lemma answersWith_published :
    publishing.AnswersWith publishedStorage publishedPosts (publishedWith [])
      ⟨.ofTable "posts", .all "posts"⟩ publishedPost isPublished
      (.array [.object [("isPublished", .bool true)]]) ⟨Shaper.plainNode "isPublished" [], []⟩ := by
  have hok : (publishing.resolveRoot publishedStorage (publishedWith [])).outcome =
      .ok ⟨.array [.object [("isPublished", .bool true)]], []⟩ := by
    decide +kernel
  have hgrouped : grouped (publishedWith []).children =
      [⟨Shaper.plainNode "isPublished" [], []⟩] := rfl
  exact {
    found := rfl
    prepared := prepare_eq_ok_iff.2 ⟨[], .ofTable "posts", rfl, by with_unfolding_all rfl, rfl⟩
    answered := ⟨_, _, hok, .plain (by decide +kernel), hgrouped ▸ List.mem_cons_self⟩
    named := by decide
    requested := rfl }

/-- Beside the title, it is answered of a query that selects the title. -/
lemma answersWith_publishedWith_title :
    publishing.AnswersWith publishedStorage publishedPosts
      (publishedWith [Shaper.plainNode "title" []])
      ⟨⟨some "posts", ["posts.title"], [], []⟩, (SelectQuery.all "posts").select ["posts.title"]⟩
      publishedPost isPublished
      (.array [.object [("isPublished", .null), ("title", .string "Rows")]])
      ⟨Shaper.plainNode "isPublished" [], []⟩ := by
  have hok : (publishing.resolveRoot publishedStorage
      (publishedWith [Shaper.plainNode "title" []])).outcome =
        .ok ⟨.array [.object [("isPublished", .null), ("title", .string "Rows")]], []⟩ := by
    decide +kernel
  have hgrouped : grouped (publishedWith [Shaper.plainNode "title" []]).children =
      [⟨Shaper.plainNode "isPublished" [], []⟩, ⟨Shaper.plainNode "title" [], []⟩] := rfl
  exact {
    found := rfl
    prepared := prepare_eq_ok_iff.2
      ⟨[], ⟨some "posts", ["posts.title"], [], []⟩, rfl, by with_unfolding_all rfl, rfl⟩
    answered := ⟨_, _, hok, .plain (by decide +kernel), hgrouped ▸ List.mem_cons_self⟩
    named := by decide
    requested := rfl }

/-- The post is published when this is all that is asked of it, and null when its title is asked for
as well: with the title, nothing else is selected. -/
theorem eq_iff_of_siblings_publishedWith :
    ∃ alone beside,
      publishing.AnswersWith publishedStorage publishedPosts (publishedWith [])
        ⟨.ofTable "posts", .all "posts"⟩ publishedPost isPublished alone
        ⟨Shaper.plainNode "isPublished" [], []⟩ ∧
      publishing.AnswersWith publishedStorage publishedPosts
        (publishedWith [Shaper.plainNode "title" []])
        ⟨⟨some "posts", ["posts.title"], [], []⟩,
          (SelectQuery.all "posts").select ["posts.title"]⟩ publishedPost isPublished beside
        ⟨Shaper.plainNode "isPublished" [], []⟩ ∧
      alone.valuesUnder "isPublished" = [some (.bool true)] ∧
      beside.valuesUnder "isPublished" = [some .null] ∧
      alone.valuesUnder "isPublished" ≠ beside.valuesUnder "isPublished" := by
  have hdescribed : publishing.registry.describe (Projector.itemType
      (publishing.registry.envelope? publishedPosts.type.namedType)
      publishedPosts.type.namedType) = .ok (some publishedPost) := by with_unfolding_all rfl
  have hmade : isPublished.MadeOf "isPublished" fun _ found =>
      (Shaper.leaf isPublished found).value := .notSelectable rfl rfl
  have hleft : (SelectQuery.all "posts").LeavesAlone "isPublished" := by
    simp [SelectQuery.all, SelectQuery.LeavesAlone]
  have hs : publishedStorage.Narrows publishedRows fun _ _ _ => .null :=
    WholeRows.narrows_storage publishedRows _
  obtain ⟨stored, hstored, -, -, hiff⟩ :=
    eq_iff_of_siblings hs envelopesApart_publishing hdescribed hmade hleft hleft
      answersWith_published answersWith_publishedWith_title rfl rfl rfl
  have hrow : publishing.storedRows publishedRows publishedPosts
      ⟨.ofTable "posts", .all "posts"⟩ (publishedWith []).node.arguments =
        .ok [[("title", .string "Rows"), ("isPublished", .bool true)]] := rfl
  obtain rfl := Except.ok.inj (hrow.symm.trans hstored)
  refine ⟨_, _, answersWith_published, answersWith_publishedWith_title, rfl, rfl, fun heq => ?_⟩
  rcases hiff.1 heq with hselects | hnothing
  · have htitle := hselects.1 (.inl rfl)
    exact absurd htitle (by decide)
  · have hsame := hnothing _ List.mem_cons_self
    cases hsame

end Schema

end GraphProjection
