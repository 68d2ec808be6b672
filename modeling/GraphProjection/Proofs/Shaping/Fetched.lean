import GraphProjection.Proofs.Narrowing.RootFields
import GraphProjection.Proofs.Shaping

/-!
# What is fetched has the form of the projection

Rows come from the storage with any entries; then the relations of the projection are attached one
after the other, each overwriting what stood in its slot.  So when all are loaded every slot holds
what was attached there (`formed_loadAll`), and the page, the list or the row that is made of the
rows has the form of the projection (`formed_fetchValue`).

Main statement: `exists_resolveRoot_of_fetchValue`, a root field whose value could be fetched is
answered.
-/

namespace GraphProjection

open FieldNode Projector Stitching

namespace Projection

/-- The relations of a projection are attached each to a slot of its own, and no constraint
registers others. -/
inductive Attachable : Projection → Prop
  | intro {p : Projection} (distinct : (p.relations.map (·.1.target.field)).Nodup)
      (quiet : ∀ relation ∈ p.relations, ∀ e ∈ relation.1.constraintEdits, e.isQuiet = true)
      (below : ∀ relation ∈ p.relations, relation.2.Attachable) : p.Attachable

lemma Attachable.of_relations_eq_nil {p : Projection} (h : p.relations = []) :
    p.Attachable := by
  refine .intro ?_ ?_ ?_ <;> rw [h]
  · exact List.nodup_nil
  all_goals exact fun relation hmem => absurd hmem List.not_mem_nil

lemma Attachable.addColumn {p : Projection} (h : p.Attachable) (column : String) :
    (p.addColumn column).Attachable := by
  cases h with
  | intro distinct quiet below => refine .intro ?_ ?_ ?_ <;> rwa [p.relations_addColumn column]

lemma Attachable.widened {p : Projection} (h : p.Attachable) : p.widened.Attachable := by
  induction h with
  | @intro p distinct quiet _ ih =>
    have hrelations := p.relations_widened
    refine .intro ?_ ?_ ?_
    · rw [hrelations, List.map_map]
      exact distinct
    · rw [hrelations, List.forall_mem_map]
      exact quiet
    · rw [hrelations, List.forall_mem_map]
      exact ih

/-- What has the form of a widened projection has that of the projection. -/
lemma Formed.of_widened {p : Projection} {paged : Bool} {v : Value}
    (h : p.widened.Formed paged v) : p.Formed paged v := by
  generalize hq : p.widened = q at h
  induction h generalizing p with
  | null => exact .null _ _
  | items _ ih => exact .items fun v hv => ih v hv hq
  | row _ ih =>
    subst hq
    refine .row fun name entry child v hfound hv => ?_
    refine ih name entry child.widened v ?_ hv rfl
    rw [relation?_widened, hfound, Option.map_some]
  | page _ ih => exact .page fun v hv => ih v hv hq

end Projection

lemma Projector.attachable_of_projectType {x : Projector} {name : String} {t : OutputType}
    {nodes : List FieldNode} {p : Projection} (hquiet : x.registry.ConstraintsLoadNothing)
    (ht : x.registry.describe name = .ok (some t)) (h : x.projectType t nodes = .ok p) :
    p.Attachable := by
  refine induction_of_projectType (fun p => .of_relations_eq_nil)
    (fun p column hp => hp.addColumn column) (fun name t nodes p ht h below => ?_) ht h
  exact .intro (nodup_slots_of_projectType ht h)
    (fun relation hmem => isQuiet_constraintEdits hquiet ht h hmem) below

lemma Projector.attachable_of_project {x : Projector} {type : String} {nodes : List FieldNode}
    {p : Projection} (hquiet : x.registry.ConstraintsLoadNothing)
    (h : x.project type nodes = .ok p) : p.Attachable := by
  rcases project_spec h with rfl | ⟨t, ht, hp⟩
  · exact .of_relations_eq_nil rfl
  · exact attachable_of_projectType hquiet ht hp

/-! ## Values that are attached -/

section Attached

variable {p : Projection} {rows : List Row}

lemma formed_array {paged : Bool} (h : ∀ row ∈ rows, p.Formed paged (.object row)) :
    p.Formed paged (.array (rows.map .object)) := by
  refine .items fun v hv => ?_
  obtain ⟨row, hrow, rfl⟩ := List.mem_map.1 hv
  exact h row hrow

lemma formed_page {items : Value} (h : p.Formed false items) (others : List (String × Value)) :
    p.Formed true (.object (("data", items) :: others)) := by
  refine .page fun v hv => ?_
  rw [Entries.get?, if_pos rfl] at hv
  cases hv
  exact h

lemma formed_envelope (h : ∀ row ∈ rows, p.Formed false (.object row)) (page : PageRequest)
    (total : Option Nat) : p.Formed true (page.envelope rows total) := by
  have hitems : p.Formed false (.array ((rows.take page.perPage).map .object)) :=
    formed_array fun row hrow => h row (List.mem_of_mem_take hrow)
  rw [PageRequest.envelope]
  cases page.kind <;> exact formed_page hitems _

lemma formed_attachedValue (h : ∀ row ∈ rows, p.Formed false (.object row))
    (target : RelationTarget) (page : Option PageRequest) :
    p.Formed page.isSome (attachedValue target page rows) := by
  cases page with
  | some page =>
    rw [attachedValue]
    exact formed_envelope (fun row hrow => h row (List.mem_of_mem_drop (List.mem_of_mem_take hrow)))
      page _
  | none =>
    rw [attachedValue]
    split
    · exact formed_array h
    · cases rows with
      | nil => exact .null _ _
      | cons row rest => exact h row List.mem_cons_self

end Attached

/-! ## Loading relations -/

/-- What stands in the slots of some relations has their form. -/
def SlotsFormed (loaded : List (RelationEntry × Projection)) (row : Row) : Prop :=
  ∀ relation ∈ loaded, ∀ v, row.get? relation.1.target.field = some v →
    relation.2.Formed relation.1.page.isSome v

lemma SlotsFormed.formed {p : Projection} {row : Row} (h : SlotsFormed p.relations row) :
    p.Formed false (.object row) := by
  refine .row fun name entry child v hfound hv => ?_
  obtain ⟨hmem, rfl⟩ := Projection.mem_of_relation? hfound
  exact h (entry, child) hmem v hv

/-- Attaching a relation fills its slot and leaves those of the others alone. -/
lemma SlotsFormed.attach {loaded : List (RelationEntry × Projection)} {row : Row}
    (h : SlotsFormed loaded row) {relation : RelationEntry × Projection}
    (hfresh : ∀ other ∈ loaded, relation.1.target.field ≠ other.1.target.field)
    {page : Option PageRequest} (hpage : page.isSome = relation.1.page.isSome)
    {related : List Row} (hrelated : ∀ row ∈ related, relation.2.Formed false (.object row)) :
    SlotsFormed (loaded ++ [relation]) (attach relation.1.target page related row) := by
  intro other hother v hv
  rcases List.mem_append.1 hother with hother | hother
  · rw [get?_attach_of_ne (hfresh other hother)] at hv
    exact h other hother v hv
  · rw [List.mem_singleton.1 hother] at hv ⊢
    rw [get?_attach_self] at hv
    cases hv
    rw [← hpage]
    exact formed_attachedValue (fun row hrow => hrelated row (List.mem_filter.1 hrow).1) _ page

section Loading

variable {s : Storage} {defaultPerPage : Nat} {p : Projection} {rows done : List Row}

/-- Loading the relations that are left: the rows of each have its form by `ih`. -/
lemma slotsFormed_loadRest (hdistinct : (p.relations.map (·.1.target.field)).Nodup)
    (hquiet : ∀ relation ∈ p.relations, ∀ e ∈ relation.1.constraintEdits, e.isQuiet = true)
    (ih : ∀ relation ∈ p.relations, ∀ rows done,
      (loadAll s defaultPerPage relation.2.loads (some relation.2) rows).outcome = .ok done →
        ∀ row ∈ done, relation.2.Formed false (.object row))
    {loaded rest : List (RelationEntry × Projection)} (hsplit : p.relations = loaded ++ rest)
    (hrows : ∀ row ∈ rows, SlotsFormed loaded row)
    (h : (loadAll s defaultPerPage
      (rest.map fun relation => (relation.1.target, relation.1.query relation.2)) (some p)
      rows).outcome = .ok done) :
    ∀ row ∈ done, SlotsFormed p.relations row := by
  -- The invariant is that the slots that have been attached are formed.
  induction rest generalizing loaded rows with
  | nil =>
    cases h
    rw [hsplit, List.append_nil]
    exact hrows
  | cons relation rest ihrest =>
    have hmem : relation ∈ p.relations := hsplit ▸ List.mem_append_right _ List.mem_cons_self
    have hslot := Projection.relation?_of_mem hdistinct hmem
    have hloads := (Projection.narrowed_query relation.2 (hquiet relation hmem)).loads
    obtain ⟨fetched, related, page, -, hrelated, hpage, hrest, -⟩ := loadAll_cons h
    simp only [Option.bind_some, hslot, Option.map_some, hloads] at hrelated hpage
    have hformed := ih relation hmem fetched related hrelated
    -- What is attached next leaves the slots that are there alone.
    have hfresh : ∀ other ∈ loaded, relation.1.target.field ≠ other.1.target.field := by
      intro other hother heq
      rw [hsplit, List.map_append, List.map_cons] at hdistinct
      exact (List.nodup_append.1 hdistinct).2.2 _ (List.mem_map_of_mem hother) _
        List.mem_cons_self heq.symm
    have hsplit' : p.relations = (loaded ++ [relation]) ++ rest := by
      rw [hsplit, List.append_assoc, List.singleton_append]
    refine ihrest hsplit' (fun row hrow => ?_) hrest
    obtain ⟨before, hbefore, rfl⟩ := List.mem_map.1 hrow
    exact (hrows before hbefore).attach hfresh (isSome_of_relationPage hpage) hformed

/-- Rows for which the relations of a projection were loaded have its form. -/
theorem formed_loadAll (hp : p.Attachable)
    (h : (loadAll s defaultPerPage p.loads (some p) rows).outcome = .ok done) :
    ∀ row ∈ done, p.Formed false (.object row) := by
  induction hp generalizing rows done with
  | @intro p distinct quiet _ ih =>
    have hall := slotsFormed_loadRest distinct quiet
      (fun relation hmem rows done hdone => ih relation hmem hdone) (List.nil_append _).symm
      (fun row _ relation hrelation => absurd hrelation List.not_mem_nil) h
    exact fun row hrow => (hall row hrow).formed

end Loading

/-! ## Root fields -/

namespace Schema

variable {s : Schema} {storage : Storage} {field : RootField} {p : Prepared} {r : ResponseField}

lemma formed_fetchRows (hp : p.projection.Attachable) {query : SelectQuery}
    (hloads : query.eagerLoads = p.projection.loads) {keep : List Row → List Row}
    {rows : List Row} (h : (s.fetchRows storage p query keep).outcome = .ok rows) :
    ∀ row ∈ rows, p.projection.Formed false (.object row) := by
  rw [fetchRows] at h
  obtain ⟨fetched, -, hrows⟩ := Traced.outcome_andThen_eq_ok_iff.1 h
  rw [loadQuery_eq, hloads] at hrows
  exact formed_loadAll hp hrows

/-- The value of a root field has the form of its projection, whatever the storage answers. -/
theorem formed_fetchValue (hp : p.projection.Attachable)
    (hloads : p.query.eagerLoads = p.projection.loads) {value : Value}
    (h : (s.fetchValue storage field p r).outcome = .ok value) :
    p.projection.Formed (s.registry.envelope? field.type.namedType).isSome value := by
  rw [fetchValue] at h
  cases henvelope : s.registry.envelope? field.type.namedType with
  | some pair =>
    simp only [henvelope, fetchPage] at h
    split at h
    · cases h
    · next page _ =>
      obtain ⟨total, -, h⟩ := Traced.outcome_andThen_eq_ok_iff.1 h
      obtain ⟨rows, hrows, h⟩ := Traced.outcome_andThen_eq_ok_iff.1 h
      cases h
      have hwindow : ((p.query.withLimit page.limit).withOffset page.offset).eagerLoads =
          p.projection.loads := hloads
      exact formed_envelope (formed_fetchRows hp hwindow hrows) page total
  | none =>
    simp only [henvelope] at h
    split at h
    · obtain ⟨rows, hrows, h⟩ := Traced.outcome_andThen_eq_ok_iff.1 h
      cases h
      exact formed_array (formed_fetchRows hp hloads hrows)
    · obtain ⟨rows, hrows, h⟩ := Traced.outcome_andThen_eq_ok_iff.1 h
      have hfirst : (p.query.withLimit 1).eagerLoads = p.projection.loads := hloads
      split at h
      · cases h
        exact formed_fetchRows hp hfirst hrows _ List.mem_cons_self
      · split at h
        · cases h
        · cases h
          exact .null _ _

lemma attachable_rootProjection (field : RootField) {q : Projection} (h : q.Attachable) :
    (rootProjection field q).Attachable := by
  rw [rootProjection]
  split
  · exact h.widened
  · exact h

lemma formed_of_rootProjection {q : Projection} {paged : Bool} {v : Value}
    (h : (rootProjection field q).Formed paged v) : q.Formed paged v := by
  rw [rootProjection] at h
  split at h
  · exact h.of_widened
  · exact h

/-- **A root field that was fetched is answered.**  When the rows of a root field and of its
relations have been fetched, nothing fails any more. -/
theorem exists_resolveRoot_of_fetchValue (hnames : s.registry.EnvelopesApart)
    (hprivacy : s.registry.PrivacyRespectsSame) (hquiet : s.registry.ConstraintsLoadNothing)
    (hhooks : s.HooksLoadNothing) (hfield : s.field? r.node.name = some field)
    (hprepare : s.prepare field r = .ok p) (hcoherent : Coherent r.children)
    (hargs : ArgumentsDistinct r.children) {value : Value}
    (hvalue : (s.fetchValue storage field p r).outcome = .ok value) :
    ∃ shaped, (s.resolveRoot storage r).outcome = .ok shaped := by
  have hhook := hhooks.isQuiet_hookEdits (List.mem_of_find?_eq_some hfield)
  obtain ⟨bound, q, hq, rfl⟩ := exists_project_of_prepare hprepare
  have hformed := formed_fetchValue
    (attachable_rootProjection field (attachable_of_project hquiet hq))
    (narrowed_prepared (hhook bound) (rootProjection field q)).loads hvalue
  obtain ⟨shaped, hshaped⟩ := Shaper.exists_shapeValue hnames hprivacy
    (formed_of_rootProjection hformed) rfl (covers_of_project hq) hargs hcoherent
    (List.Subset.refl _)
  refine ⟨shaped, ?_⟩
  rw [resolveRoot]
  simp only [hfield, hprepare]
  rw [Traced.outcome_andThen_of_ok hvalue, Shaper.shape, hshaped]
  rfl

end Schema

end GraphProjection
