import GraphProjection.Proofs.Projection.Exactness

/-!
# Levels of a projection

A projection has one level for its own rows, and one for the rows of each relation at any depth.
`Projection.levelAt?` finds a level by the names of the fields that lead to it, the name `data`
leading from an envelope to its items, and `FieldNode.selectedAt` goes down a selection in the same
way.

`Projector.HasProjection` says of a level that it is the projection of a selection on a type, but
for the column that matches the rows with their parents.  It is kept from an envelope to its items
(`HasProjection.items`) and along a relation (`HasProjection.below_relation`), where no type is
named like an envelope.
-/

namespace GraphProjection

/-- The fields that are asked for below a path of field names. -/
def FieldNode.selectedAt : List FieldNode → List String → List FieldNode
  | nodes, [] => nodes
  | nodes, name :: path => selectedAt (childrenOf (requested nodes name)) path

/-- A field of a described type is found under its name. -/
lemma Registry.field?_of_mem {r : Registry} {name : String} {t : OutputType}
    (ht : r.describe name = .ok (some t)) {f : FieldDescriptor} (hf : f ∈ t.fields) :
    t.field? f.name = some f := by
  have hfound : (t.field? f.name).isSome = true :=
    List.find?_isSome.2 ⟨f, hf, beq_self_eq_true f.name⟩
  obtain ⟨g, hg⟩ := Option.isSome_iff_exists.1 hfound
  obtain ⟨hmem, hname⟩ := OutputType.mem_of_field? hg
  rw [hg, Registry.eq_of_name_eq ht hmem hf hname]

namespace Projection

/-- The level of a projection below a path of field names.  The flag says that a projection belongs
to a page, so that `data` comes first, and of a level that it does. -/
def levelAt? : Projection → Bool → List String → Option (Projection × Bool)
  | p, paged, [] => some (p, paged)
  | p, true, name :: path => if name = "data" then p.levelAt? false path else none
  | p, false, name :: path =>
    match p.relation? name with
    | some (entry, child) => child.levelAt? entry.page.isSome path
    | none => none

@[simp] lemma levelAt?_nil (p : Projection) (paged : Bool) :
    p.levelAt? paged [] = some (p, paged) := by
  cases paged <;> rfl

@[simp] lemma levelAt?_data (p : Projection) (path : List String) :
    p.levelAt? true ("data" :: path) = p.levelAt? false path := by
  rw [levelAt?, if_pos rfl]

lemma levelAt?_of_relation? {p child : Projection} {name : String} {entry : RelationEntry}
    (h : p.relation? name = some (entry, child)) (path : List String) :
    p.levelAt? false (name :: path) = child.levelAt? entry.page.isSome path := by
  rw [levelAt?, h]

/-- The way from a page to a level starts with `data`. -/
lemma levelAt?_paged_cons {p : Projection} {name : String} {path : List String}
    {level : Projection × Bool} (h : p.levelAt? true (name :: path) = some level) :
    name = "data" ∧ p.levelAt? false path = some level := by
  rw [levelAt?] at h
  split at h
  · next hname => exact ⟨hname, h⟩
  · cases h

/-- The way from a row to a level starts with a relation. -/
lemma levelAt?_row_cons {p : Projection} {name : String} {path : List String}
    {level : Projection × Bool} (h : p.levelAt? false (name :: path) = some level) :
    ∃ entry child, p.relation? name = some (entry, child) ∧
      child.levelAt? entry.page.isSome path = some level := by
  rw [levelAt?] at h
  split at h
  · next entry child hfound => exact ⟨entry, child, hfound, h⟩
  · cases h

end Projection

namespace Projector

open FieldNode

/-- A level is the projection of a selection on a type, perhaps with the column that matches its
rows with their parents. -/
def HasProjection (x : Projector) (type : String) (nodes : List FieldNode) (p : Projection) :
    Prop :=
  ∃ q, x.project type nodes = .ok q ∧ (p = q ∨ ∃ column, p = q.addColumn column)

variable {x : Projector} {type : String} {nodes : List FieldNode} {p : Projection}

lemma hasProjection_of_project (h : x.project type nodes = .ok p) :
    x.HasProjection type nodes p :=
  ⟨p, h, .inl rfl⟩

/-- What is projected of an envelope is projected of its items. -/
theorem HasProjection.items (h : x.HasProjection type nodes p) {kind : PageKind} {item : String}
    (henvelope : x.registry.envelope? type = some (kind, item))
    (hitem : x.registry.envelope? item = none) :
    x.HasProjection item (childrenOf (requested nodes "data")) p := by
  obtain ⟨q, hq, hp⟩ := h
  refine ⟨q, ?_, hp⟩
  rw [project, henvelope] at hq
  simp only [itemType, itemNodes, envelopeItems_eq] at hq
  split at hq
  · cases hq
  · rw [project, hitem]
    exact hq

/-- The projection of a type whose rows are those of a described type. -/
theorem project_eq_ok_iff {target : OutputType}
    (ht : x.registry.describe (itemType (x.registry.envelope? type) type) = .ok (some target)) :
    x.project type nodes = .ok p ↔
      checkEnvelope (x.registry.envelope? type) type nodes = .ok () ∧
        x.projectType target (itemNodes (x.registry.envelope? type) nodes) = .ok p := by
  rw [project, ht]
  cases checkEnvelope (x.registry.envelope? type) type nodes with
  | error e => simp
  | ok _ => simp

/-- What a requested relation contributes is the projection of the fields below it on the named type
of its field, with the column that matches the rows. -/
theorem relationContribution_eq_ok_iff_project {t : OutputType} {f : FieldDescriptor}
    {r : RelationDescriptor} {arguments : Arguments} {inner : List FieldNode} {c : Contribution} :
    x.relationContribution t f r arguments inner = .ok c ↔ ∃ target child,
      x.Targets f target ∧ x.project f.type.namedType inner = .ok child ∧
      c = ⟨[t.qualify r.localKey], [],
        [(relationEntry f r target (x.registry.envelope? f.type.namedType) arguments,
          child.addColumn (target.qualify r.foreignKey))]⟩ := by
  rw [relationContribution_eq_ok_iff]
  constructor
  · rintro ⟨hcheck, target, child, htarget, hchild, rfl⟩
    exact ⟨target, child, htarget, (project_eq_ok_iff htarget).2 ⟨hcheck, hchild⟩, rfl⟩
  · rintro ⟨target, child, htarget, hproject, rfl⟩
    obtain ⟨hcheck, hchild⟩ := (project_eq_ok_iff htarget).1 hproject
    exact ⟨hcheck, target, child, htarget, hchild, rfl⟩

/-- A relation that was requested holds the projection of the fields below it. -/
lemma exists_project_of_mem {t : OutputType} (h : x.projectType t nodes = .ok p)
    {relation : RelationEntry × Projection} (hmem : relation ∈ p.relations)
    (hrequested : requested nodes relation.1.target.field ≠ []) :
    ∃ f ∈ t.fields, ∃ r, f.kind = .relation r ∧ relation.1.target.field = f.name ∧
      relation.1.page.isSome = (x.registry.envelope? f.type.namedType).isSome ∧
      ∃ inner column, x.project f.type.namedType
          (childrenOf (requested nodes relation.1.target.field)) = .ok inner ∧
        relation.2 = inner.addColumn column := by
  obtain ⟨-, parts, hparts, rfl⟩ := projectType_eq_ok_iff.1 h
  rw [Projection.relations_assemble] at hmem
  obtain ⟨c, hc, hmem⟩ := List.mem_flatMap.1 hmem
  obtain ⟨f, hf, hcontribution⟩ := exists_left_of_mem hparts hc
  obtain ⟨-, r, target, horigin, -⟩ := exists_origin_of_contribution hcontribution hmem
  obtain ⟨own, hown, rfl⟩ := contribution_eq_ok_iff.1 hcontribution
  rw [horigin.field] at hrequested ⊢
  refine ⟨f, hf, r, horigin.kind, rfl, horigin.page, ?_⟩
  rw [ownContribution] at hown
  -- The relation is requested, so what contributed it was not forced.
  split at hown
  · next hnone => exact absurd hnone hrequested
  · next first rest hfields =>
    rw [requestedContribution] at hown
    split at hown
    · simp only [horigin.kind] at hown
      obtain ⟨target', child, -, hchild, rfl⟩ := relationContribution_eq_ok_iff_project.1 hown
      cases List.mem_singleton.1 hmem
      exact ⟨child, _, hfields ▸ hchild, rfl⟩
    · cases hown
      cases hmem

section Rows

variable (h : x.HasProjection type nodes p) (hrow : x.registry.envelope? type = none)
  {t : OutputType} (ht : x.registry.describe type = .ok (some t))
include h hrow ht

lemma HasProjection.exists_projectType :
    ∃ q, x.projectType t nodes = .ok q ∧ (p = q ∨ ∃ column, p = q.addColumn column) := by
  obtain ⟨q, hq, hp⟩ := h
  rw [project, hrow] at hq
  simp only [checkEnvelope, itemType, itemNodes, ht] at hq
  exact ⟨q, hq, hp⟩

lemma HasProjection.exact : ∃ matching, x.Exact t nodes matching p := by
  obtain ⟨q, hq, hp⟩ := h.exists_projectType hrow ht
  have hexact := exact_of_projectType ht hq
  rcases hp with rfl | ⟨column, rfl⟩
  · exact ⟨none, hexact⟩
  · exact ⟨some column, hexact.addColumn column⟩

/-- What a level holds for a relation that was requested is the projection of what is selected below
all fields of the relation. -/
theorem HasProjection.below_relation {name : String} {entry : RelationEntry} {child : Projection}
    (hfound : p.relation? name = some (entry, child)) (hrequested : requested nodes name ≠ []) :
    ∃ f r, t.field? name = some f ∧ f.kind = .relation r ∧
      entry.page.isSome = (x.registry.envelope? f.type.namedType).isSome ∧
      x.HasProjection f.type.namedType (childrenOf (requested nodes name)) child := by
  obtain ⟨q, hq, hp⟩ := h.exists_projectType hrow ht
  have hfound' : q.relation? name = some (entry, child) := by
    rcases hp with rfl | ⟨column, rfl⟩
    · exact hfound
    · rwa [Projection.relation?_addColumn] at hfound
  obtain ⟨hmem, hname⟩ := Projection.mem_of_relation? hfound'
  obtain ⟨f, hf, r, hkind, hslot, hpage, inner, column, hinner, hchild⟩ :=
    exists_project_of_mem hq hmem (hname.symm ▸ hrequested)
  refine ⟨f, r, ?_, hkind, hpage, inner, ?_, .inr ⟨column, hchild⟩⟩
  · rw [← hname, hslot]
    exact Registry.field?_of_mem ht hf
  · rw [← hname]
    exact hinner

end Rows

end Projector

end GraphProjection
