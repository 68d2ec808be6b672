import GraphProjection.Proofs.Projection.Serving

/-!
# Selections that a projection covers

Making the projection of a selection checks the selection: the names that are asked of an envelope,
the fields of a type and their arguments, and so on below every relation that is seen.  Whoever
goes down the selection later, with a value in hand, can rely on these checks.

`Projector.Covers` is what is known at one level.  A projection covers its selection
(`covers_of_project`), what it holds for a relation covers what is selected below all fields of the
relation's name (`Covers.below`), and a projection of an envelope covers what is selected of the
items (`Covers.items_of_envelope`).
-/

namespace GraphProjection

namespace Projector

open FieldNode

/-- A selection on a type is in order, and a projection has the relations of its projection: the
fields of the envelope, if the type is one, are fields of its kind, and the fields of the items are
projected unless nothing is known of their type. -/
structure Covers (x : Projector) (type : String) (nodes : List FieldNode) (p : Projection) :
    Prop where
  envelope : checkEnvelope (x.registry.envelope? type) type nodes = .ok ()
  items : x.registry.describe (itemType (x.registry.envelope? type) type) = .ok none ∨
    ∃ t q, x.registry.describe (itemType (x.registry.envelope? type) type) = .ok (some t) ∧
      x.projectType t (itemNodes (x.registry.envelope? type) nodes) = .ok q ∧
      p.relations = q.relations

variable {x : Projector} {type : String} {nodes : List FieldNode} {p : Projection}

theorem covers_of_project (h : x.project type nodes = .ok p) : Covers x type nodes p := by
  rw [project] at h
  split at h
  · cases h
  · next hcheck =>
    split at h
    · cases h
    · next hnone => exact ⟨hcheck, .inl hnone⟩
    · next t ht => exact ⟨hcheck, .inr ⟨t, p, ht, h, rfl⟩⟩

/-- What is selected of the items of an envelope is covered as what is selected of their type. -/
theorem Covers.items_of_envelope (h : Covers x type nodes p) {kind : PageKind} {item : String}
    (henvelope : x.registry.envelope? type = some (kind, item))
    (hitem : x.registry.envelope? item = none) :
    Covers x item (envelopeItems nodes) p := by
  have hitems := h.items
  rw [henvelope] at hitems
  refine ⟨?_, ?_⟩
  · rw [hitem]
    rfl
  · rw [hitem]
    exact hitems

/-! ## Rows

A type that is no envelope is the type of its own items.
-/

section Rows

variable (h : Covers x type nodes p) (hrow : x.registry.envelope? type = none)
include h hrow

lemma Covers.exists_describe : ∃ described, x.registry.describe type = .ok described := by
  have hitems := h.items
  rw [hrow] at hitems
  rcases hitems with hnone | ⟨t, -, ht, -⟩
  · exact ⟨none, hnone⟩
  · exact ⟨some t, ht⟩

variable {t : OutputType} (ht : x.registry.describe type = .ok (some t))
include ht

/-- The fields of a row of a registered type have a projection. -/
lemma Covers.exists_projectType :
    ∃ q, x.projectType t nodes = .ok q ∧ p.relations = q.relations := by
  have hitems := h.items
  rw [hrow] at hitems
  rcases hitems with hnone | ⟨t', q, ht', hq, hrelations⟩
  · cases ht.symm.trans hnone
  · cases ht.symm.trans ht'
    exact ⟨q, hq, hrelations⟩

/-- The fields of a row are in order. -/
lemma Covers.checkFields : t.checkFields nodes [] = .ok () := by
  obtain ⟨q, hq, -⟩ := h.exists_projectType hrow ht
  exact (projectType_eq_ok_iff.1 hq).1

/-- What is selected below all fields of a relation that is seen is covered by what the projection
holds in the slot of the relation. -/
theorem Covers.below (hprivacy : x.registry.PrivacyRespectsSame) (hargs : ArgumentsDistinct nodes)
    {node : FieldNode} (hnode : node ∈ nodes) {f : FieldDescriptor} (hsees : Sees x t node f)
    {r : RelationDescriptor} (hkind : f.kind = .relation r) :
    ∃ entry child, p.relation? f.name = some (entry, child) ∧
      entry.page.isSome = (x.registry.envelope? f.type.namedType).isSome ∧
      Covers x f.type.namedType (childrenOf (requested nodes node.name)) child := by
  obtain ⟨q, hq, hrelations⟩ := h.exists_projectType hrow ht
  have hdistinct : ∀ node ∈ nodes, (Entries.names node.arguments).Nodup :=
    fun other hother => hargs other (.here hother)
  obtain ⟨entry, target, inner, hfound, hpage, hcheck, htarget, hinner⟩ :=
    exists_relation_of_sees hprivacy ht hdistinct hq hnode hsees hkind
  have hsame : p.relation? f.name = q.relation? f.name := by
    rw [Projection.relation?, hrelations, ← Projection.relation?]
  have hbelow : (inner.addColumn (target.qualify r.foreignKey)).relations = inner.relations :=
    Projection.relations_addColumn _ _
  rw [(OutputType.mem_of_field? hsees.2.1).2] at hcheck hinner
  exact ⟨entry, _, hsame.trans hfound, hpage, hcheck, .inr ⟨target, inner, htarget, hinner, hbelow⟩⟩

end Rows

end Projector

end GraphProjection
