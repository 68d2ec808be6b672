import GraphProjection.Execution
import GraphProjection.Proofs.Narrowing.Loadable
import GraphProjection.Proofs.Sufficiency

/-!
# Root fields, narrow and wide

A root field of either strategy is answered in the same steps.  What they differ in is the
projection, which is widened for the one and not for the other, and through it the query.

The steps are compared one by one: the rows that are fetched and completed agree on the projection
(`alike_fetchRows`), hence so does the page, the list or the row that is made of them
(`alike_fetchValue`), and what agrees is shaped alike, because the projection serves the selection
(`outcome_resolveField_eq`).
-/

namespace GraphProjection

open FieldNode Projector Stitching

/-- A root field with another strategy. -/
def RootField.withStrategy (field : RootField) (strategy : Strategy) : RootField :=
  { field with declaration := { field.declaration with strategy := strategy } }

/-- What a registry needs so that narrowing its queries is not noticed. -/
structure Registry.Narrowable (r : Registry) : Prop where
  envelopes : r.EnvelopesApart
  slots : r.SlotsApartThroughout
  privacy : r.PrivacyRespectsSame
  constraints : r.ConstraintsLoadNothing

namespace Schema

/-- No hook of a root field registers relations. -/
def HooksLoadNothing (s : Schema) : Prop :=
  ∀ field ∈ s.fields, ∀ hook, field.declaration.hook = some hook →
    ∀ bound, ∀ e ∈ hook bound, e.isQuiet = true

/-! ## Preparing -/

/-- What is prepared for a root field with a projection. -/
def prepared (d : RootDeclaration) (arguments : Arguments) (bound : Bindings) (p : Projection) :
    Prepared :=
  ⟨p, (p.applyTo (SelectQuery.all d.table)).editAll
    (filterEdits d arguments ++ hookEdits d bound)⟩

/-- A root field is prepared with what its parameters are bound to and the projection of its
selection. -/
theorem prepare_eq_ok_iff {s : Schema} {field : RootField} {r : ResponseField} {p : Prepared} :
    s.prepare field r = .ok p ↔
      ∃ bound q, bind field.declaration.parameters r.node.arguments s.services = .ok bound ∧
        project ⟨s.registry, s.services⟩ field.type.namedType r.children = .ok q ∧
        p = prepared field.declaration r.node.arguments bound (rootProjection field q) := by
  rw [prepare]
  constructor
  · intro h
    split at h
    · cases h
    · next bound hbound =>
      split at h
      · cases h
      · next q hq =>
        cases h
        exact ⟨bound, q, hbound, hq, rfl⟩
  · rintro ⟨bound, q, hbound, hq, rfl⟩
    simp only [hbound, hq]
    rfl

/-- What is prepared for a root field comes from the projection of its selection. -/
lemma exists_project_of_prepare {s : Schema} {field : RootField} {r : ResponseField}
    {p : Prepared} (h : s.prepare field r = .ok p) :
    ∃ bound q, project ⟨s.registry, s.services⟩ field.type.namedType r.children = .ok q ∧
      p = prepared field.declaration r.node.arguments bound (rootProjection field q) := by
  obtain ⟨bound, q, -, hq, hp⟩ := prepare_eq_ok_iff.1 h
  exact ⟨bound, q, hq, hp⟩

/-- Whether a root field can be prepared does not depend on its strategy, and the strategy says
which projection it is prepared with. -/
theorem prepare_withStrategy (s : Schema) (field : RootField) (r : ResponseField) :
    (∃ e, ∀ strategy, s.prepare (field.withStrategy strategy) r = .error e) ∨
      ∃ bound p, project ⟨s.registry, s.services⟩ field.type.namedType r.children = .ok p ∧
        s.prepare (field.withStrategy .selectFields) r =
          .ok (prepared field.declaration r.node.arguments bound p) ∧
        s.prepare (field.withStrategy .allColumns) r =
          .ok (prepared field.declaration r.node.arguments bound p.widened) := by
  cases hbound : bind field.declaration.parameters r.node.arguments s.services with
  | error e =>
    refine .inl ⟨.bind e, fun strategy => ?_⟩
    simp only [prepare, RootField.withStrategy, hbound]
  | ok bound =>
    cases hp : project ⟨s.registry, s.services⟩ field.type.namedType r.children with
    | error e =>
      refine .inl ⟨.projection e, fun strategy => ?_⟩
      simp only [prepare, RootField.withStrategy, hbound, hp]
    | ok p =>
      refine .inr ⟨bound, p, rfl, ?_, ?_⟩
      · simp only [prepare, RootField.withStrategy, hbound, hp]
        rfl
      · simp only [prepare, RootField.withStrategy, hbound, hp]
        rfl

lemma isQuiet_filterEdits (d : RootDeclaration) (arguments : Arguments) :
    ∀ e ∈ filterEdits d arguments, e.isQuiet = true := by
  intro e he
  obtain ⟨⟨argument, column⟩, -, hvalue⟩ := List.mem_filterMap.1 he
  obtain ⟨value, -, rfl⟩ := Option.map_eq_some_iff.1 hvalue
  rfl

lemma HooksLoadNothing.isQuiet_hookEdits {s : Schema} (h : s.HooksLoadNothing)
    {field : RootField} (hfield : field ∈ s.fields) (bound : Bindings) :
    ∀ e ∈ hookEdits field.declaration bound, e.isQuiet = true := by
  rw [hookEdits]
  split
  · next hook hhook => exact h field hfield hook hhook bound
  · exact fun e he => absurd he List.not_mem_nil

/-- The query of a root field is narrow against the one with the projection widened. -/
lemma narrowed_prepared {d : RootDeclaration} {arguments : Arguments} {bound : Bindings}
    (hhook : ∀ e ∈ hookEdits d bound, e.isQuiet = true) (p : Projection) :
    p.Narrowed (prepared d arguments bound p).query
      (prepared d arguments bound p.widened).query := by
  have hedits : ∀ e ∈ filterEdits d arguments ++ hookEdits d bound, e.isQuiet = true := by
    intro e he
    rcases List.mem_append.1 he with hfilter | hhooked
    · exact isQuiet_filterEdits d arguments e hfilter
    · exact hhook e hhooked
  exact (Projection.narrowed_editAll_edits p d.table).editAll hedits

/-! ## Fetching -/

section Fetching

variable {s : Schema} {storage : Storage} {whole : WholeRows}
  {computed : Row → List (String × String) → String → Value} {p : Projection}
  {own other : Prepared}

/-- Two prepared root fields ask for the same rows, and the rows that are fetched for a page, for a
list or for a single value agree on a projection once they are completed. -/
structure FetchesAlike (s : Schema) (storage : Storage) (p : Projection)
    (own other : Prepared) : Prop where
  query : own.query.SameRows other.query
  page : ∀ limit offset, Traced.Alike (List.Forall₂ (RowsAgree p))
    (s.fetchRows storage own ((own.query.withLimit limit).withOffset offset) id)
    (s.fetchRows storage other ((other.query.withLimit limit).withOffset offset) id)
  list : Traced.Alike (List.Forall₂ (RowsAgree p)) (s.fetchRows storage own own.query id)
    (s.fetchRows storage other other.query id)
  first : Traced.Alike (List.Forall₂ (RowsAgree p))
    (s.fetchRows storage own (own.query.withLimit 1) (·.take 1))
    (s.fetchRows storage other (other.query.withLimit 1) (·.take 1))

lemma alike_fetchTotal (hs : storage.Narrows whole computed) (page : PageRequest)
    {query query' : SelectQuery} (hquery : query.SameRows query') :
    Traced.Alike (· = ·) (fetchTotal storage page query) (fetchTotal storage page query') := by
  rw [fetchTotal, fetchTotal]
  split
  · refine (alike_count hs hquery).andThen fun n n' hn => ?_
    exact .pure (congrArg some hn)
  · exact .pure rfl

lemma alike_fetchPage (hs : storage.Narrows whole computed)
    (h : FetchesAlike s storage p own other) (kind : PageKind) (arguments : Arguments) :
    Traced.Alike (p.Agree true) (s.fetchPage storage own kind arguments)
      (s.fetchPage storage other kind arguments) := by
  rw [fetchPage, fetchPage]
  split
  · exact .fail _ _
  · next page _ =>
    refine (alike_fetchTotal hs page h.query).andThen fun total total' htotal => ?_
    refine (h.page page.limit page.offset).andThen fun rows rows' hrows => ?_
    rw [htotal]
    exact .pure (agree_envelope hrows page total')

lemma alike_fetchList (h : FetchesAlike s storage p own other) :
    Traced.Alike (p.Agree false) (s.fetchList storage own) (s.fetchList storage other) := by
  rw [fetchList, fetchList]
  exact h.list.andThen fun rows rows' hrows => .pure (agree_array hrows)

lemma alike_fetchOne (h : FetchesAlike s storage p own other) (name : String)
    (type : TypeRef) :
    Traced.Alike (p.Agree false) (s.fetchOne storage own name type)
      (s.fetchOne storage other name type) := by
  rw [fetchOne, fetchOne]
  refine h.first.andThen fun rows rows' hrows => ?_
  cases hrows with
  | cons hrow _ => exact .pure hrow
  | nil =>
    by_cases hrequired : type.isRequired
    · simp only [if_pos hrequired]
      exact .fail _ _
    · simp only [if_neg hrequired]
      exact .pure (.same p false .null)

/-- The values of a root field agree on the projection, as a page where its type is an
envelope. -/
theorem alike_fetchValue (hs : storage.Narrows whole computed)
    (h : FetchesAlike s storage p own other) (field : RootField) (r : ResponseField) :
    Traced.Alike (p.Agree (s.registry.envelope? field.type.namedType).isSome)
      (s.fetchValue storage field own r) (s.fetchValue storage field other r) := by
  rw [fetchValue, fetchValue]
  cases s.registry.envelope? field.type.namedType with
  | some pair => exact alike_fetchPage hs h pair.1 r.node.arguments
  | none =>
    by_cases hlist : field.type.isList
    · simp only [if_pos hlist]
      exact alike_fetchList h
    · simp only [if_neg hlist]
      exact alike_fetchOne h r.node.name field.type

/-! ### Narrow and wide rows -/

/-- Two prepared root fields for which the same rows are fetched, narrow and wide. -/
structure PreparedAlike (p : Projection) (narrow wide : Prepared) : Prop where
  loadable : p.Loadable
  projection : narrow.projection = p
  wideProjection : wide.projection = p.widened
  query : p.Narrowed narrow.query wide.query

/-- Rows that are fetched and completed agree on the projection. -/
theorem alike_fetchRows (hs : storage.Narrows whole computed) (h : PreparedAlike p own other)
    {query query' : SelectQuery} (hquery : p.Narrowed query query') {keep : List Row → List Row}
    (hkeep : ∀ rows rows', List.Forall₂ (RowsAlike p) rows rows' →
      List.Forall₂ (RowsAlike p) (keep rows) (keep rows')) :
    Traced.Alike (List.Forall₂ (RowsAgree p)) (s.fetchRows storage own query keep)
      (s.fetchRows storage other query' keep) := by
  rw [fetchRows, fetchRows]
  refine (alike_fetch hs hquery).andThen fun rows rows' hrows => ?_
  rw [loadQuery_eq, loadQuery_eq, hquery.loads, hquery.wideLoads, h.projection,
    h.wideProjection]
  exact alike_loadAll hs h.loadable (hkeep rows rows' hrows)

lemma PreparedAlike.fetchesAlike (h : PreparedAlike p own other)
    (hs : storage.Narrows whole computed) : FetchesAlike s storage p own other where
  query := h.query.sameRows
  page limit offset :=
    alike_fetchRows hs h ((h.query.withLimit limit).withOffset offset) fun _ _ hrows => hrows
  list := alike_fetchRows hs h h.query fun _ _ hrows => hrows
  first := alike_fetchRows hs h (h.query.withLimit 1) fun _ _ hrows => List.forall₂_take 1 hrows

end Fetching

/-! ## Answering -/

/-- The value of a root field that is known, and the errors of the fields below it. -/
def resolveField (s : Schema) (storage : Storage) (field : RootField) (r : ResponseField) :
    Traced Shaped :=
  match s.prepare field r with
  | .error e => .fail e
  | .ok p =>
    (s.fetchValue storage field p r).andThen fun value =>
      match Shaper.shape ⟨s.registry, s.services⟩ field.type.namedType value r.children with
      | .error e => .fail (.shape e)
      | .ok shaped => .pure shaped

/-- The calls for a root field are those that its value takes. -/
lemma calls_answerRoot {s : Schema} {storage : Storage} {r : ResponseField}
    (h : r.node.name ≠ FieldNode.typename) :
    (s.answerRoot storage r).calls = (s.resolveRoot storage r).calls := by
  rw [answerRoot, if_neg h]
  cases houtcome : (s.resolveRoot storage r).outcome <;> simp only [houtcome]

lemma resolveRoot_eq (s : Schema) (storage : Storage) (r : ResponseField) :
    s.resolveRoot storage r =
      match s.field? r.node.name with
      | none => .fail (.unknownRootField queryType r.node.name)
      | some field => s.resolveField storage field r := rfl

variable {s : Schema} {storage : Storage} {whole : WholeRows}
  {computed : Row → List (String × String) → String → Value}

lemma alike_resolveField (hr : s.registry.Narrowable) (hhooks : s.HooksLoadNothing)
    (hs : storage.Narrows whole computed) {field : RootField} (hfield : field ∈ s.fields)
    {r : ResponseField} (hcoherent : Coherent r.children) (hargs : ArgumentsDistinct r.children)
    (hstored : s.registry.FromStorage field.type.namedType r.children) :
    Traced.Alike (· = ·) (s.resolveField storage (field.withStrategy .selectFields) r)
      (s.resolveField storage (field.withStrategy .allColumns) r) := by
  rcases s.prepare_withStrategy field r with ⟨e, herror⟩ | ⟨bound, p, hp, hnarrow, hwide⟩
  · rw [resolveField, resolveField, herror, herror]
    exact .fail _ e
  rw [resolveField, resolveField, hnarrow, hwide]
  rcases project_spec hp with rfl | ⟨t, ht, hprojected⟩
  · -- Nothing is known of the type, so there is nothing to widen.
    have hwidened : (Projection.ofTable none).widened = Projection.ofTable none := by
      rw [Projection.ofTable, Projection.widened, Projection.widenedRelations]
    rw [hwidened]
    exact .refl _
  · have hserves := serves_of_projectType hr.slots.relationsApart hr.privacy ht hstored hargs
      hprojected
    have hprepared : PreparedAlike p
        (prepared field.declaration r.node.arguments bound p)
        (prepared field.declaration r.node.arguments bound p.widened) :=
      { loadable := loadable_of_projectType hr.slots hr.constraints ht hprojected
        projection := rfl
        wideProjection := rfl
        query := narrowed_prepared (hhooks.isQuiet_hookEdits hfield bound) p }
    refine (alike_fetchValue hs (hprepared.fetchesAlike hs) field r).andThen fun v w hagree => ?_
    have hshape : Shaper.shape ⟨s.registry, s.services⟩ field.type.namedType v r.children =
        Shaper.shape ⟨s.registry, s.services⟩ field.type.namedType w r.children :=
      Shaper.shapeValue_eq_of_agree hr.envelopes hagree rfl ht hserves hcoherent
        (List.Subset.refl _)
    show Traced.Alike (· = ·)
      (match Shaper.shape ⟨s.registry, s.services⟩ field.type.namedType v r.children with
        | .error e => .fail (.shape e)
        | .ok shaped => .pure shaped)
      (match Shaper.shape ⟨s.registry, s.services⟩ field.type.namedType w r.children with
        | .error e => .fail (.shape e)
        | .ok shaped => .pure shaped)
    rw [hshape]
    exact .refl _

/-- A root field has the same outcome under any two strategies. -/
theorem outcome_resolveField_eq (hr : s.registry.Narrowable) (hhooks : s.HooksLoadNothing)
    (hs : storage.Narrows whole computed) {field : RootField} (hfield : field ∈ s.fields)
    {r : ResponseField} (hcoherent : Coherent r.children) (hargs : ArgumentsDistinct r.children)
    (hstored : s.registry.FromStorage field.type.namedType r.children) (a b : Strategy) :
    (s.resolveField storage (field.withStrategy a) r).outcome =
      (s.resolveField storage (field.withStrategy b) r).outcome := by
  have hsame := (alike_resolveField hr hhooks hs hfield hcoherent hargs hstored).outcome_eq
  cases a with
  | selectFields =>
    cases b with
    | selectFields => rfl
    | allColumns => exact hsame
  | allColumns =>
    cases b with
    | selectFields => exact hsame.symm
    | allColumns => rfl

end Schema

end GraphProjection
