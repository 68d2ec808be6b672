import GraphProjection.Proofs.Projection.Serving

/-!
# Denied relations in projections

What is asked for below a relation that is denied does not reach the projection.
`Projector.SameButDenied` compares two selections with the same calls which may differ below denied
relations, at any depth, and `project_of_sameButDenied` says that they have the same projection, or
fail in the same way.  The relation itself is not loaded either (`relation?_of_denies`).

The projector decides once for all fields of a name, by the arguments of the first of them.
-/

namespace GraphProjection

namespace FieldNode

/-! ## The same calls -/

/-- Two fields of one name and with the same arguments; what is asked for below them, the key and
the place may differ. -/
def SameCall (a b : FieldNode) : Prop := a.name = b.name ∧ a.arguments = b.arguments

variable {nodes others : List FieldNode}

lemma sameCalls_refl (nodes : List FieldNode) : List.Forall₂ SameCall nodes nodes :=
  List.forall₂_same.2 fun _ _ => ⟨rfl, rfl⟩

lemma sameCalls_requested (h : List.Forall₂ SameCall nodes others) (name : String) :
    List.Forall₂ SameCall (requested nodes name) (requested others name) := by
  induction h with
  | nil => exact .nil
  | @cons a b rest rest' hcall _ ih =>
    have hname : (a.name == name && a.name != typename) =
        (b.name == name && b.name != typename) := by rw [hcall.1]
    unfold requested at ih ⊢
    rw [List.filter_cons, List.filter_cons, hname]
    split
    · exact .cons hcall ih
    · exact ih

/-- Searches by name come to calls that are the same. -/
lemma sameCall_of_find? (h : List.Forall₂ SameCall nodes others) (name : String) :
    (nodes.find? (·.name == name) = none ∧ others.find? (·.name == name) = none) ∨
      ∃ a b, nodes.find? (·.name == name) = some a ∧ others.find? (·.name == name) = some b ∧
        SameCall a b := by
  induction h with
  | nil => exact .inl ⟨rfl, rfl⟩
  | @cons a b rest rest' hcall _ ih =>
    rw [List.find?_cons, List.find?_cons, ← hcall.1]
    by_cases hname : a.name = name
    · simp only [hname, beq_self_eq_true]
      exact .inr ⟨a, b, rfl, rfl, hcall⟩
    · simp only [beq_eq_false_iff_ne.2 hname]
      exact ih

lemma checkFields_of_sameCalls (t : OutputType) (h : List.Forall₂ SameCall nodes others)
    {earlier before : List FieldNode} (hearlier : List.Forall₂ SameCall earlier before) :
    t.checkFields nodes earlier = t.checkFields others before := by
  induction h generalizing earlier before with
  | nil => rfl
  | @cons a b rest rest' hcall _ ih =>
    rw [OutputType.checkFields, OutputType.checkFields, hcall.1]
    split
    · exact ih hearlier
    · split
      · rfl
      · rcases sameCall_of_find? hearlier b.name with ⟨hnone, hnone'⟩ | ⟨c, d, hc, hd, hfirst⟩
        · rw [hnone, hnone']
          exact ih (List.rel_append hearlier (.cons hcall .nil))
        · rw [hc, hd]
          simp only [hfirst.2, hcall.2, ih hearlier]

lemma checkEnvelope_of_sameCalls (h : List.Forall₂ SameCall nodes others)
    (envelope : Option (PageKind × String)) (type : String) :
    Projector.checkEnvelope envelope type nodes = Projector.checkEnvelope envelope type others := by
  unfold Projector.checkEnvelope
  split
  · next kind _ =>
    induction h with
    | nil => rfl
    | cons hcall _ ih => rw [PageKind.checkFields, PageKind.checkFields, hcall.1, ih]
  · rfl

/-- A selection with other fields below the fields of one name. -/
def withBelow (name : String) (below : FieldNode → List FieldNode) (nodes : List FieldNode) :
    List FieldNode :=
  nodes.map fun node => if node.name = name then { node with children := below node } else node

lemma sameCalls_withBelow (name : String) (below : FieldNode → List FieldNode)
    (nodes : List FieldNode) : List.Forall₂ SameCall nodes (withBelow name below nodes) := by
  refine List.forall₂_map_right_iff.2 (List.forall₂_same.2 fun node _ => ?_)
  by_cases h : node.name = name
  · rw [if_pos h]
    exact ⟨rfl, rfl⟩
  · rw [if_neg h]
    exact ⟨rfl, rfl⟩

lemma requested_withBelow {name other : String} (h : other ≠ name)
    (below : FieldNode → List FieldNode) (nodes : List FieldNode) :
    requested (withBelow name below nodes) other = requested nodes other := by
  induction nodes with
  | nil => rfl
  | cons node rest ih =>
    unfold withBelow requested at ih ⊢
    by_cases hname : node.name = name
    · have hother : ¬ node.name = other := fun heq => h (heq.symm.trans hname)
      simp only [List.map_cons, List.filter_cons, hname, if_true, hname ▸ hother, beq_iff_eq,
        Bool.and_eq_true, false_and, if_false, ih]
    · simp only [List.map_cons, List.filter_cons, hname, if_false, ih]

end FieldNode

namespace Projector

open FieldNode

variable {x : Projector} {t : OutputType} {nodes others : List FieldNode}

/-! ## Fields that are allowed and denied -/

/-- A field is asked for, and its privacy rule allows it. -/
def Allows (x : Projector) (nodes : List FieldNode) (f : FieldDescriptor) : Prop :=
  ∃ first rest, requested nodes f.name = first :: rest ∧
    f.allows first.arguments x.services = true

/-- A field is asked for, and its privacy rule denies it. -/
def Denies (x : Projector) (nodes : List FieldNode) (f : FieldDescriptor) : Prop :=
  ∃ first rest, requested nodes f.name = first :: rest ∧
    f.allows first.arguments x.services = false

lemma Denies.not_allows {f : FieldDescriptor} (h : x.Denies nodes f) : ¬ x.Allows nodes f := by
  obtain ⟨first, rest, hrequested, hdenied⟩ := h
  rintro ⟨first', rest', hrequested', hallowed⟩
  cases hrequested.symm.trans hrequested'
  exact Bool.false_ne_true (hdenied.symm.trans hallowed)

/-- A field that is denied contributes nothing of its own. -/
lemma contribution_of_denies {f : FieldDescriptor} (h : x.Denies nodes f) :
    x.contribution t nodes f = .ok (.behind .none (alwaysColumns t f)) := by
  obtain ⟨first, rest, hrequested, hdenied⟩ := h
  simp only [contribution, ownContribution, hrequested, requestedContribution, hdenied]
  rfl

/-- A relation that is denied is not loaded. -/
theorem relation?_of_denies {name : String} (ht : x.registry.describe name = .ok (some t))
    {p : Projection} (hp : x.projectType t nodes = .ok p) {f : FieldDescriptor}
    (hf : f ∈ t.fields) (hdenies : x.Denies nodes f) : p.relation? f.name = none := by
  rw [Projection.relation?, List.find?_eq_none]
  intro relation hrelation hslot
  obtain ⟨-, parts, hparts, rfl⟩ := projectType_eq_ok_iff.1 hp
  rw [Projection.relations_assemble] at hrelation
  obtain ⟨c, hc, hmem⟩ := List.mem_flatMap.1 hrelation
  obtain ⟨g, hg, hcontribution⟩ := exists_left_of_mem hparts hc
  obtain ⟨-, r, target, horigin, -⟩ := exists_origin_of_contribution hcontribution hmem
  have hsame : g = f :=
    Registry.eq_of_name_eq ht hg hf (horigin.field.symm.trans (by simpa using hslot))
  subst hsame
  rw [contribution_of_denies hdenies] at hcontribution
  cases hcontribution
  exact absurd hmem List.not_mem_nil

/-! ## Selections that differ below denied relations -/

/-- Selections on a type, or on an envelope of one, with the same calls throughout, except below
relations that are denied. -/
inductive SameButDenied (x : Projector) : String → List FieldNode → List FieldNode → Prop
  | intro {type : String} {nodes others : List FieldNode}
      (calls : List.Forall₂ SameCall nodes others)
      (items : List.Forall₂ SameCall (itemNodes (x.registry.envelope? type) nodes)
        (itemNodes (x.registry.envelope? type) others))
      (below : ∀ t, x.registry.describe (itemType (x.registry.envelope? type) type) =
          .ok (some t) → ∀ f ∈ t.fields, f.relation?.isSome = true →
        x.Allows (itemNodes (x.registry.envelope? type) nodes) f →
        SameButDenied x f.type.namedType
          (childrenOf (requested (itemNodes (x.registry.envelope? type) nodes) f.name))
          (childrenOf (requested (itemNodes (x.registry.envelope? type) others) f.name))) :
      SameButDenied x type nodes others

lemma SameButDenied.calls {type : String} (h : x.SameButDenied type nodes others) :
    List.Forall₂ SameCall nodes others := by
  cases h with
  | intro calls _ _ => exact calls

lemma SameButDenied.refl (x : Projector) (type : String) (nodes : List FieldNode) :
    x.SameButDenied type nodes nodes := by
  induction hdepth : depths nodes using Nat.strongRecOn generalizing type nodes with
  | _ depth ih =>
    subst hdepth
    refine .intro (sameCalls_refl _) (sameCalls_refl _) fun t _ f _ _ hallows => ?_
    refine ih _ (Nat.lt_of_lt_of_le ?_ (depths_itemNodes_le (x.registry.envelope? type) nodes)) _ _
      rfl
    obtain ⟨first, rest, hrequested, -⟩ := hallows
    refine depths_childrenOf_lt (requested_subset _ _) ?_
    rw [hrequested]
    exact List.cons_ne_nil _ _

/-- Fields that contribute the same make the same projection. -/
lemma projectType_congr (hcheck : t.checkFields nodes [] = t.checkFields others [])
    (h : ∀ f ∈ t.fields, x.contribution t nodes f = x.contribution t others f) :
    x.projectType t nodes = x.projectType t others := by
  have hfold : ∀ fields, fields ⊆ t.fields → ∀ p,
      fields.foldlM (x.addField t nodes fun target below _ => x.projectType target below) p =
        fields.foldlM (x.addField t others fun target below _ => x.projectType target below) p := by
    intro fields
    induction fields with
    | nil => exact fun _ _ => rfl
    | cons f rest ih =>
      intro hsubset p
      rw [List.cons_subset] at hsubset
      rw [List.foldlM_cons, List.foldlM_cons, addField_eq, addField_eq, h f hsubset.1]
      exact congrArg _ (funext (ih hsubset.2))
  rw [projectType, projectType, hcheck, hfold t.fields (List.Subset.refl _)]

/-- What a relation contributes depends on the check of the envelope and on the projection of the
fields below. -/
theorem relationContribution_congr {f : FieldDescriptor} {r : RelationDescriptor}
    {arguments : Arguments}
    (hcheck : checkEnvelope (x.registry.envelope? f.type.namedType) f.type.namedType nodes =
      checkEnvelope (x.registry.envelope? f.type.namedType) f.type.namedType others)
    (hproject : ∀ target, x.registry.describe
        (itemType (x.registry.envelope? f.type.namedType) f.type.namedType) = .ok (some target) →
      x.projectType target (itemNodes (x.registry.envelope? f.type.namedType) nodes) =
        x.projectType target (itemNodes (x.registry.envelope? f.type.namedType) others)) :
    x.relationContribution t f r arguments nodes =
      x.relationContribution t f r arguments others := by
  unfold relationContribution
  simp only [hcheck]
  split
  · rfl
  · split
    · rfl
    · next target htarget => rw [hproject target (Registry.expect_eq_ok_iff.1 htarget)]

/-- A field contributes the same to both selections. -/
lemma contribution_of_sameCalls (h : List.Forall₂ SameCall nodes others) (f : FieldDescriptor)
    (hrelation : ∀ r arguments, f.kind = .relation r → x.Allows nodes f →
      x.relationContribution t f r arguments (childrenOf (requested nodes f.name)) =
        x.relationContribution t f r arguments (childrenOf (requested others f.name))) :
    x.contribution t nodes f = x.contribution t others f := by
  have hcalls := sameCalls_requested h f.name
  unfold contribution ownContribution
  cases hnodes : requested nodes f.name with
  | nil =>
    rw [hnodes, List.forall₂_nil_left_iff] at hcalls
    rw [hcalls]
  | cons first rest =>
    rw [hnodes] at hcalls hrelation
    obtain ⟨first', rest', hcall, -, hothers⟩ := List.forall₂_cons_left_iff.1 hcalls
    rw [hothers] at hrelation ⊢
    simp only [requestedContribution, ← hcall.2]
    cases hallowed : f.allows first.arguments x.services with
    | false => rfl
    | true =>
      cases hkind : f.kind with
      | relation r =>
        simp only [hrelation r first.arguments hkind ⟨first, rest, hnodes, hallowed⟩]
      | column column => rfl
      | computed outputAlias e => rfl
      | notSelectable => rfl

/-- Below a denied relation, nothing that is asked for reaches the projection. -/
lemma projectType_of_sameButDenied {type : String} (h : x.SameButDenied type nodes others) :
    ∀ t, x.registry.describe (itemType (x.registry.envelope? type) type) = .ok (some t) →
      x.projectType t (itemNodes (x.registry.envelope? type) nodes) =
        x.projectType t (itemNodes (x.registry.envelope? type) others) := by
  induction h with
  | @intro type nodes others calls items below ih =>
    intro t ht
    refine projectType_congr (checkFields_of_sameCalls t items .nil) fun f hf => ?_
    refine contribution_of_sameCalls items f fun r arguments hkind hallows => ?_
    have hsome : f.relation?.isSome = true := by rw [FieldDescriptor.relation?, hkind]; rfl
    exact relationContribution_congr
      (checkEnvelope_of_sameCalls (below t ht f hf hsome hallows).calls _ _)
      (ih t ht f hf hsome hallows)

/-- **What is asked for below denied relations, at any depth, does not reach a projection.** -/
theorem project_of_sameButDenied {type : String} (h : x.SameButDenied type nodes others) :
    x.project type nodes = x.project type others := by
  unfold project
  simp only [checkEnvelope_of_sameCalls h.calls]
  split
  · rfl
  · split
    · rfl
    · rfl
    · next t ht => exact projectType_of_sameButDenied h t ht

/-! ## Other fields below a denied relation -/

/-- Whatever is asked for below the fields of a name, if the relation of that name is denied. -/
lemma sameButDenied_withBelow {type name : String}
    (henvelope : x.registry.envelope? type = none)
    (hdenied : ∀ t, x.registry.describe type = .ok (some t) → ∀ f ∈ t.fields, f.name = name →
      ¬ x.Allows nodes f) (below : FieldNode → List FieldNode) :
    x.SameButDenied type nodes (withBelow name below nodes) := by
  refine .intro (sameCalls_withBelow name below nodes) ?_ ?_
  · rw [henvelope]
    exact sameCalls_withBelow name below nodes
  · rw [henvelope]
    intro t ht f hf _ hallows
    have hother : f.name ≠ name := fun hname => hdenied t ht f hf hname hallows
    simp only [itemNodes, requested_withBelow hother]
    exact .refl _ _ _

end Projector

end GraphProjection
