import GraphProjection.Proofs.Projection.Covering
import GraphProjection.Proofs.Projection.Invariance
import GraphProjection.Proofs.Sufficiency

/-!
# What is projected can be shaped

A selection is checked when its projection is made, and a value is shaped after it was fetched.
Main statement: **`exists_shape_of_project`**, a selection that has a projection is never found
wrong when a value is shaped.

Of the value nothing is known but where it comes from: `Projection.Formed` says that there is null,
a list, a row or an envelope wherever the projection has a relation, and an envelope only where the
relation is paged.  What stands in the other entries of a row is not asked.  The proof is by
induction on that; the fields of a row and of an envelope are gone through in `exists_rowField` and
`exists_envelopeField`, where `Projector.Covers` says what was checked.
-/

namespace GraphProjection

/-- A value has the form of what is fetched for a projection.  The flag says that the value belongs
to a page, so that an object is the envelope of the rows that the projection is about. -/
inductive Projection.Formed : Projection → Bool → Value → Prop
  | null (p : Projection) (paged : Bool) : Formed p paged .null
  | items {p : Projection} {paged : Bool} {vs : List Value} (each : ∀ v ∈ vs, Formed p paged v) :
      Formed p paged (.array vs)
  | row {p : Projection} {a : Row}
      (below : ∀ name entry child v, p.relation? name = some (entry, child) →
        a.get? name = some v → Formed child entry.page.isSome v) : Formed p false (.object a)
  | page {p : Projection} {a : Row} (below : ∀ v, a.get? "data" = some v → Formed p false v) :
      Formed p true (.object a)

namespace Shaper

open FieldNode Projector

/-! ## Where nothing fails -/

lemma exists_shapeFields {shape : ResponseField → ShapeResult} {fields : List ResponseField}
    (h : ∀ g ∈ fields, ∃ shaped, shape g = .ok shaped) :
    ∃ all, shapeFields shape fields = .ok all := by
  induction fields with
  | nil => exact ⟨_, rfl⟩
  | cons g rest ih =>
    obtain ⟨shaped, hshaped⟩ := h g List.mem_cons_self
    obtain ⟨⟨members, errors⟩, hrest⟩ := ih fun g hg => h g (List.mem_cons_of_mem _ hg)
    rw [shapeFields, hshaped, hrest]
    exact ⟨_, rfl⟩

lemma exists_shapeObject {shape : ResponseField → ShapeResult} {nodes : List FieldNode}
    (h : ∀ g ∈ grouped nodes, ∃ shaped, shape g = .ok shaped) :
    ∃ shaped, shapeObject shape nodes = .ok shaped := by
  obtain ⟨⟨members, errors⟩, hall⟩ := exists_shapeFields h
  rw [shapeObject, hall]
  exact ⟨_, rfl⟩

lemma exists_shapeItems {x : Shaper} {type : String} {nodes : List FieldNode} {vs : List Value}
    (h : ∀ v ∈ vs, ∃ shaped, x.shapeValue v type nodes = .ok shaped) (n : Nat) :
    ∃ all, shapeItems x vs n type nodes = .ok all := by
  induction vs generalizing n with
  | nil =>
    rw [shapeItems]
    exact ⟨_, rfl⟩
  | cons v rest ih =>
    obtain ⟨shaped, hshaped⟩ := h v List.mem_cons_self
    obtain ⟨⟨values, errors⟩, hrest⟩ := ih (fun v hv => h v (List.mem_cons_of_mem _ hv)) (n + 1)
    rw [shapeItems, hshaped, hrest]
    exact ⟨_, rfl⟩

/-- A member that is missing is null. -/
lemma exists_shapeMember {x : Shaper} {a : Row} {name type : String} {nodes : List FieldNode}
    (h : ∀ v, a.get? name = some v → ∃ shaped, x.shapeValue v type nodes = .ok shaped) :
    ∃ shaped, shapeMember (shapeMembers x a) name type nodes = .ok shaped := by
  rw [shapeMember, get?_shapeMembers]
  cases hv : a.get? name with
  | none => exact ⟨_, rfl⟩
  | some v => exact h v hv

/-! ## Fields that were checked -/

/-- A field of a row is shaped when it is declared and, if it is a relation that is seen, its value
is shaped. -/
theorem exists_rowField {r : Registry} {services : ServiceLocator} {t : OutputType} {a : Row}
    {g : ResponseField}
    (hknown : g.node.name ≠ typename → (t.field? g.node.name).isSome = true)
    (hrelation : ∀ f relation, Sees ⟨r, services⟩ t g.node f → f.kind = .relation relation →
      ∃ shaped, shapeMember (shapeMembers ⟨r, services⟩ a) f.name f.type.namedType g.children =
        .ok shaped) :
    ∃ shaped, rowField ⟨r, services⟩ t a (shapeMembers ⟨r, services⟩ a) g = .ok shaped := by
  rw [rowField]
  by_cases htypename : g.node.name = typename
  · rw [if_pos htypename]
    exact ⟨_, rfl⟩
  · obtain ⟨f, hf⟩ := Option.isSome_iff_exists.1 (hknown htypename)
    rw [if_neg htypename, hf]
    simp only [fieldValue]
    cases hallows : f.allows g.node.arguments services with
    | false => exact ⟨_, rfl⟩
    | true =>
      simp only [Bool.not_true, Bool.false_eq_true, if_false]
      cases f.resolver with
      | some resolver => exact ⟨_, rfl⟩
      | none =>
        cases hkind : f.kind with
        | column column => exact ⟨_, rfl⟩
        | computed outputAlias e =>
          simp only
          split <;> exact ⟨_, rfl⟩
        | relation relation => exact hrelation f relation ⟨htypename, hf, hallows⟩ hkind
        | notSelectable => exact ⟨_, rfl⟩

/-- A field of an envelope is shaped when it is a field of its kind and the items are shaped. -/
theorem exists_envelopeField {x : Shaper} {type item : String} {kind : PageKind} {a : Row}
    {g : ResponseField} (hknown : g.node.name = typename ∨ kind.hasField g.node.name = true)
    (hdata : g.node.name ≠ typename → g.node.name = "data" →
      ∃ shaped, shapeMember (shapeMembers x a) "data" item g.children = .ok shaped) :
    ∃ shaped, envelopeField type kind item a (shapeMembers x a) g = .ok shaped := by
  rw [envelopeField]
  by_cases htypename : g.node.name = typename
  · rw [if_pos htypename]
    exact ⟨_, rfl⟩
  · rw [if_neg htypename]
    by_cases hname : g.node.name = "data"
    · rw [if_pos hname]
      exact hdata htypename hname
    · rw [if_neg hname, if_pos (hknown.resolve_left htypename)]
      exact ⟨_, rfl⟩

/-! ## Values -/

/-- A value that was fetched for a projection is shaped, as long as the projection covers what is
selected of the value and maybe more. -/
theorem exists_shapeValue {r : Registry} {services : ServiceLocator} (hapart : r.EnvelopesApart)
    (hprivacy : r.PrivacyRespectsSame) {p : Projection} {paged : Bool} {v : Value}
    (h : p.Formed paged v) {type : String} {nodes selected : List FieldNode}
    (hpaged : paged = (r.envelope? type).isSome)
    (hcovers : Covers ⟨r, services⟩ type nodes p) (hargs : ArgumentsDistinct nodes)
    (hcoherent : Coherent selected) (hsubset : selected ⊆ nodes) :
    ∃ shaped, shapeValue ⟨r, services⟩ v type selected = .ok shaped := by
  -- The induction is on the form of what was fetched. Projection and selection go down along with
  -- it.
  induction h generalizing type nodes selected with
  | null p paged =>
    rw [shapeValue]
    exact ⟨_, rfl⟩
  | @items p paged vs _ ih =>
    have heach : ∀ v ∈ vs, ∃ shaped, shapeValue ⟨r, services⟩ v type selected = .ok shaped :=
      fun v hv => ih v hv hpaged hcovers hargs hcoherent hsubset
    obtain ⟨⟨values, errors⟩, hitems⟩ := exists_shapeItems heach 0
    rw [shapeValue, hitems]
    exact ⟨_, rfl⟩
  | @row p a _ ih =>
    have hnone : r.envelope? type = none := Option.not_isSome_iff_eq_none.1 (by simp [← hpaged])
    rw [shapeValue, shapeMembersAs]
    simp only [hnone]
    obtain ⟨described, hdescribed⟩ := hcovers.exists_describe hnone
    simp only [hdescribed]
    cases described with
    | none => exact ⟨_, rfl⟩
    | some t =>
      refine exists_shapeObject fun g hg => ?_
      have hmem : g.node ∈ nodes := hsubset (mem_grouped hg).1
      refine exists_rowField (OutputType.isSome_field?_of_checkFields
        (hcovers.checkFields hnone hdescribed) hmem) fun f relation hsees hkind => ?_
      obtain ⟨entry, child, hfound, hpage, hchild⟩ :=
        hcovers.below hnone hdescribed hprivacy hargs hmem hsees hkind
      refine exists_shapeMember fun v hv => ?_
      exact ih f.name entry child v hfound hv hpage hchild
        (hargs.childrenOf (requested_subset _ _)) (hcoherent.children hg)
        (children_subset_requested hcoherent.names hg hsubset hsees.1)
  | @page p a _ ih =>
    obtain ⟨⟨kind, item⟩, hsome⟩ := Option.isSome_iff_exists.1 hpaged.symm
    have hitem : r.envelope? item = none := hapart.item hsome
    have hcheck := hcovers.envelope
    rw [hsome] at hcheck
    rw [shapeValue, shapeMembersAs]
    simp only [hsome]
    refine exists_shapeObject fun g hg => ?_
    have hmem : g.node ∈ nodes := hsubset (mem_grouped hg).1
    refine exists_envelopeField (PageKind.checkFields_eq_ok_iff.1 hcheck g.node hmem) ?_
    intro htypename hdata
    have hbelow := children_subset_requested hcoherent.names hg hsubset htypename
    rw [hdata, ← envelopeItems_eq] at hbelow
    refine exists_shapeMember fun v hv => ?_
    exact ih v hv (by rw [hitem]; rfl) (hcovers.items_of_envelope hsome hitem)
      (hargs.childrenOf List.filter_sublist.subset) (hcoherent.children hg) hbelow

/-- **A selection that is accepted for fetching never fails in shaping.**  Where there is a
projection of a selection, every value that has the form of what is fetched for it is shaped.

That the registry is one whose declarations have all been found right is not needed: a selection
on a wrong type has no projection. -/
theorem exists_shape_of_project {r : Registry} {services : ServiceLocator}
    (hnames : r.EnvelopesApart) (hprivacy : r.PrivacyRespectsSame) {type : String}
    {nodes : List FieldNode} {p : Projection}
    (hp : project ⟨r, services⟩ type nodes = .ok p) (hcoherent : Coherent nodes)
    (hargs : ArgumentsDistinct nodes) {value : Value}
    (hvalue : p.Formed (r.envelope? type).isSome value) :
    ∃ shaped, shape ⟨r, services⟩ type value nodes = .ok shaped :=
  exists_shapeValue hnames hprivacy hvalue rfl (covers_of_project hp) hargs hcoherent
    (List.Subset.refl _)

/-- A post with a page of comments has the form of a projection whose only relation are the comments
in pages. -/
theorem formed_blogPost {p : Projection}
    (h : ∀ relation ∈ p.relations, relation.1.target.field = "comments" ∧
      relation.1.page.isSome = true ∧ relation.2.relations = []) : p.Formed false blogPost := by
  refine .row fun name entry child v hfound hv => ?_
  obtain ⟨hmem, rfl⟩ := Projection.mem_of_relation? hfound
  obtain ⟨hname, hpage, hnone⟩ := h (entry, child) hmem
  simp only at hname hpage hnone hv
  rw [hname] at hv
  cases hv
  rw [hpage]
  refine .page fun v hv => ?_
  cases hv
  refine .items fun v hv => ?_
  rw [List.mem_singleton.1 hv]
  refine .row fun name entry grandchild v hfound hv => ?_
  obtain ⟨hmem, -⟩ := Projection.mem_of_relation? hfound
  rw [hnone] at hmem
  cases hmem

/-- The post is shaped for a selection with a page of comments. -/
theorem exists_shape_of_project_blogPost :
    ∃ p shaped, project ⟨blog, fun _ => none⟩ "Post" blogSelection = .ok p ∧
      p.Formed false blogPost ∧
      shape ⟨blog, fun _ => none⟩ "Post" blogPost blogSelection = .ok shaped := by
  have hall : (match project ⟨blog, fun _ => none⟩ "Post" blogSelection with
      | .ok p => p.relations.all fun relation => relation.1.target.field == "comments" &&
          relation.1.page.isSome && relation.2.relations.isEmpty
      | .error _ => false) = true := by decide +kernel
  cases hp : project ⟨blog, fun _ => none⟩ "Post" blogSelection with
  | error e =>
    rw [hp] at hall
    cases hall
  | ok p =>
    rw [hp] at hall
    have hformed : p.Formed false blogPost := by
      refine formed_blogPost fun relation hmem => ?_
      have hrelation := List.all_eq_true.1 hall relation hmem
      simpa [and_assoc] using hrelation
    have hcoherent : Coherent blogSelection :=
      .of_coherentTo (by decide : coherentTo 4 blogSelection = true)
    have hargs : ArgumentsDistinct blogSelection := .of_everyIn (by decide)
    have hpost : (blog.envelope? "Post").isSome = false := by decide +kernel
    obtain ⟨shaped, hshaped⟩ := exists_shape_of_project envelopesApart_blog
      privacyRespectsSame_blog hp hcoherent hargs (hpost.symm ▸ hformed)
    exact ⟨p, shaped, rfl, hformed, hshaped⟩

end Shaper

end GraphProjection
