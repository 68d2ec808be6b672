import GraphProjection.Proofs.Projection.Serving
import GraphProjection.Shape

/-!
# A projection is enough to shape a value

What a projection fetches is all that shaping looks at.  `shapeValue_eq_of_agree` is the
statement for any two values that agree on a projection that serves the selection; it goes down
the agreement, and at a row the fields that read it are gone through kind by kind.  `shape_restrict`
is the statement for a value and what the projection of the selection leaves of it.

Nothing is asked of the value: its rows may have entries of any kind, and where it is not what the
type says, shaping fails in the same way on both sides.
-/

namespace GraphProjection

namespace Shaper

open FieldNode Projector

/-! ## What shaping an object looks at -/

lemma shapeFields_congr {a b : ResponseField → ShapeResult} {fields : List ResponseField}
    (h : ∀ r ∈ fields, a r = b r) : shapeFields a fields = shapeFields b fields := by
  induction fields with
  | nil => rfl
  | cons r rest ih =>
    have hhead := h r List.mem_cons_self
    have htail := ih fun r hr => h r (List.mem_cons_of_mem _ hr)
    rw [shapeFields, shapeFields, hhead, htail]

lemma shapeObject_congr {a b : ResponseField → ShapeResult} {nodes : List FieldNode}
    (h : ∀ r ∈ grouped nodes, a r = b r) : shapeObject a nodes = shapeObject b nodes := by
  rw [shapeObject, shapeObject, shapeFields_congr h]

lemma shapeItems_congr {x : Shaper} {type : String} {nodes : List FieldNode}
    {vs ws : List Value} (hlength : vs.length = ws.length)
    (h : ∀ (n : Nat) (v w : Value), vs[n]? = some v → ws[n]? = some w →
      x.shapeValue v type nodes = x.shapeValue w type nodes) (n : Nat) :
    shapeItems x vs n type nodes = shapeItems x ws n type nodes := by
  induction vs generalizing ws n with
  | nil =>
    have hnil : ws = [] := List.length_eq_zero_iff.1 hlength.symm
    rw [hnil]
  | cons v rest ih =>
    cases ws with
    | nil => cases hlength
    | cons w others =>
      have hhead := h 0 v w rfl rfl
      have htail := ih (Nat.succ.inj hlength) (fun m a b ha hb => h (m + 1) a b ha hb) (n + 1)
      rw [shapeItems, shapeItems, hhead, htail]

/-- A member shapes alike in two objects where it is there in both or in neither, and its values
shape alike. -/
theorem shapeMember_congr {x : Shaper} {a b : Row} {name type : String}
    {nodes : List FieldNode} (hthere : (a.get? name).isSome = (b.get? name).isSome)
    (h : ∀ v w, a.get? name = some v → b.get? name = some w →
      x.shapeValue v type nodes = x.shapeValue w type nodes) :
    shapeMember (shapeMembers x a) name type nodes =
      shapeMember (shapeMembers x b) name type nodes := by
  rw [shapeMember, shapeMember, get?_shapeMembers, get?_shapeMembers]
  cases ha : a.get? name with
  | none =>
    cases hb : b.get? name with
    | none => rfl
    | some w => simp [ha, hb] at hthere
  | some v =>
    cases hb : b.get? name with
    | none => simp [ha, hb] at hthere
    | some w => exact h v w ha hb

/-- An expression whose parameters are bound has a text. -/
lemma isSome_expressionText?_of_bound {r : Registry} {services : ServiceLocator}
    {e : Expression} {arguments : Arguments}
    (h : bindFault? ⟨r, services⟩ e arguments = none) :
    (expressionText? ⟨r, services⟩ e arguments).isSome = true := by
  cases e with
  | raw sql => rfl
  | callback parameters build =>
    rw [bindFault?] at h
    split at h
    · next bound hbind =>
      rw [expressionText?, hbind]
      rfl
    · cases h

/-- A field of a row shapes alike in two rows that agree on what the projection reads. -/
lemma fieldValue_congr {r : Registry} {services : ServiceLocator} {t : OutputType}
    {nodes : List FieldNode} {p : Projection} {a b : Row}
    (hfetches : Fetches ⟨r, services⟩ t nodes p)
    (hentries : ∀ name, p.Reads name → a.get? name = b.get? name) {g : ResponseField}
    (hmem : g.node ∈ nodes) (htypename : g.node.name ≠ typename) {f : FieldDescriptor}
    (hf : t.field? g.node.name = some f)
    (hrelation : ∀ relation, f.kind = .relation relation →
      f.allows g.node.arguments services = true →
      shapeMember (shapeMembers ⟨r, services⟩ a) f.name f.type.namedType g.children =
        shapeMember (shapeMembers ⟨r, services⟩ b) f.name f.type.namedType g.children) :
    fieldValue ⟨r, services⟩ f a (shapeMembers ⟨r, services⟩ a) g =
      fieldValue ⟨r, services⟩ f b (shapeMembers ⟨r, services⟩ b) g := by
  rw [fieldValue, fieldValue]
  cases hallows : f.allows g.node.arguments services with
  | false => rfl
  | true =>
    have hsees : Sees ⟨r, services⟩ t g.node f := ⟨htypename, hf, hallows⟩
    -- Without a resolver a field looks at the one entry that its kind names.
    obtain ⟨hresolver, hselectable⟩ := hfetches.stored g.node hmem f hsees
    simp only [Bool.not_true, Bool.false_eq_true, if_false, hresolver]
    cases hkind : f.kind with
    | column column =>
      obtain ⟨hholds, hslot⟩ := hfetches.column g.node hmem f column hsees hkind
      simp only [hentries column ⟨hholds.keeps, hslot⟩]
    | computed outputAlias e =>
      cases hbound : bindFault? ⟨r, services⟩ e g.node.arguments with
      | some fault => simp only [hbound]
      | none =>
        obtain ⟨hholds, hslot⟩ := hfetches.computed g.node hmem f outputAlias e hsees hkind
          (isSome_expressionText?_of_bound hbound)
        simp only [hentries outputAlias ⟨hholds.keeps, hslot⟩]
    | relation relation => exact hrelation relation hkind hallows
    | notSelectable => exact absurd hkind hselectable

/-- A row shapes alike when its entries are those of another row and its relations shape alike. -/
lemma shapeObject_rowField_congr {r : Registry} {services : ServiceLocator} {t : OutputType}
    {nodes selected : List FieldNode} {p : Projection} {a b : Row}
    (hfetches : Fetches ⟨r, services⟩ t nodes p)
    (hentries : ∀ name, p.Reads name → a.get? name = b.get? name) (hsubset : selected ⊆ nodes)
    (hrelations : ∀ g ∈ grouped selected, ∀ f relation, Sees ⟨r, services⟩ t g.node f →
      f.kind = .relation relation →
      shapeMember (shapeMembers ⟨r, services⟩ a) f.name f.type.namedType g.children =
        shapeMember (shapeMembers ⟨r, services⟩ b) f.name f.type.namedType g.children) :
    shapeObject (rowField ⟨r, services⟩ t a (shapeMembers ⟨r, services⟩ a)) selected =
      shapeObject (rowField ⟨r, services⟩ t b (shapeMembers ⟨r, services⟩ b)) selected := by
  apply shapeObject_congr
  intro g hg
  have hmem : g.node ∈ nodes := hsubset (mem_grouped hg).1
  rw [rowField, rowField]
  by_cases htypename : g.node.name = typename
  · rw [if_pos htypename, if_pos htypename]
  · rw [if_neg htypename, if_neg htypename]
    split
    · rfl
    · next f hf =>
      apply fieldValue_congr hfetches hentries hmem htypename hf
      intro relation hkind hallows
      exact hrelations g hg f relation ⟨htypename, hf, hallows⟩ hkind

/-! ## Values that agree shape alike -/

/-- Two values that agree on a projection shape alike, where the projection serves more than what
is selected of them. -/
theorem shapeValue_eq_of_agree {r : Registry} {services : ServiceLocator}
    (happart : r.EnvelopesApart) {p : Projection} {paged : Bool} {v w : Value}
    (h : p.Agree paged v w) {type : String} {t : OutputType} {nodes selected : List FieldNode}
    (hpaged : paged = (r.envelope? type).isSome)
    (ht : r.describe (itemType (r.envelope? type) type) = .ok (some t))
    (hserves : Serves ⟨r, services⟩ t nodes p) (hcoherent : Coherent selected)
    (hsubset : itemNodes (r.envelope? type) selected ⊆ nodes) :
    shapeValue ⟨r, services⟩ v type selected = shapeValue ⟨r, services⟩ w type selected := by
  induction h generalizing type t nodes selected with
  | same p paged v => rfl
  | items hlength _ ih =>
    have hitems := shapeItems_congr hlength
      (fun n v w hv hw => ih n v w hv hw hpaged ht hserves hcoherent hsubset) 0
    rw [shapeValue, shapeValue, hitems]
  | @row p a b hentries hslots _ ih =>
    have hnone : r.envelope? type = none := Option.not_isSome_iff_eq_none.1 (by simp [← hpaged])
    rw [hnone] at ht hsubset
    have hdescribe : r.describe type = .ok (some t) := ht
    rw [shapeValue, shapeValue, shapeMembersAs, shapeMembersAs]
    simp only [hnone, hdescribe]
    cases hserves with
    | intro hfetches hunder =>
    refine shapeObject_rowField_congr hfetches hentries hsubset ?_
    intro g hg f relation hsees hkind
    have hmem : g.node ∈ nodes := hsubset (mem_grouped hg).1
    obtain ⟨entry, child, target, hfound, hpage, htarget⟩ :=
      hfetches.slot g.node hmem f relation hsees hkind
    have hchild := hunder g.node hmem f relation entry child target hsees hkind hfound htarget
    -- The fields below one response key are fields below one name.
    have hbelow : g.children ⊆ childrenOf (requested nodes g.node.name) :=
      children_subset_requested hcoherent.names hg hsubset hsees.1
    refine shapeMember_congr (hslots f.name (by rw [hfound]; rfl)) fun v w hv hw => ?_
    exact ih f.name entry child v w hfound hv hw hpage htarget hchild (hcoherent.children hg)
      (itemNodes_subset hbelow)
  | @page p a b hothers hslot _ ih =>
    obtain ⟨⟨kind, item⟩, hsome⟩ := Option.isSome_iff_exists.1 hpaged.symm
    rw [hsome] at ht hsubset
    have hitem : r.envelope? item = none := happart.item hsome
    rw [shapeValue, shapeValue, shapeMembersAs, shapeMembersAs]
    simp only [hsome]
    refine shapeObject_congr fun g hg => ?_
    rw [envelopeField, envelopeField]
    split
    · rfl
    · next htypename =>
      split
      · next hdata =>
        have hitems : g.children ⊆ envelopeItems selected := by
          rw [envelopeItems_eq, ← hdata]
          exact children_subset_requested hcoherent.names hg (List.Subset.refl _) htypename
        refine shapeMember_congr hslot fun v w hv hw => ?_
        refine ih v w hv hw (by rw [hitem]; rfl) (by rw [hitem]; exact ht) hserves
          (hcoherent.children hg) ?_
        rw [hitem]
        exact List.Subset.trans hitems hsubset
      · next hdata => rw [hothers g.node.name hdata]

/-- **A projection is sufficient.**  Shaping a value gives the same result, value and errors, as
shaping what the projection of the selection leaves of it.

That the registry is one whose declarations have all been found right is not needed: a selection
on a wrong type has no projection. -/
theorem shape_restrict {r : Registry} {services : ServiceLocator} (hnames : r.EnvelopesApart)
    (hslots : r.RelationsApart) (hprivacy : r.PrivacyRespectsSame) {type : String}
    {nodes : List FieldNode} {p : Projection}
    (hp : project ⟨r, services⟩ type nodes = .ok p) (hcoherent : Coherent nodes)
    (hargs : ArgumentsDistinct nodes) (hstored : r.FromStorage type nodes) (value : Value) :
    shape ⟨r, services⟩ type (value.restrict p (r.envelope? type).isSome) nodes =
      shape ⟨r, services⟩ type value nodes := by
  rcases project_spec hp with rfl | ⟨t, ht, hprojected⟩
  · rw [Value.restrict_ofTable]
  · have hserves : Serves ⟨r, services⟩ t (itemNodes (r.envelope? type) nodes) p :=
      serves_of_projectType hslots hprivacy ht hstored hargs hprojected
    have hagree := Projection.agree_restrict value p (r.envelope? type).isSome
    exact (shapeValue_eq_of_agree hnames hagree rfl ht hserves hcoherent
      (List.Subset.refl _)).symm

/-! ## Posts and their comments -/

/-- Posts with their comments in pages. -/
def blog : Registry where
  settings := {}
  types := [
    { name := "Post"
      table := some "posts"
      fields := [
        { name := "id", type := "ID!" },
        { name := "title", type := "String", column := some "headline" },
        { name := "comments", type := "CommentPagination!"
          relation := some { localKey := some "id", foreignKey := some "post_id" } }] },
    { name := "Comment"
      table := some "comments"
      fields := [
        { name := "id", type := "ID!" },
        { name := "body", type := "String" }] }]

/-- A field without key and arguments. -/
def plainNode (name : String) (children : List FieldNode) : FieldNode :=
  ⟨none, name, [], ⟨1, 1⟩, children⟩

/-- The titles of posts and the bodies of their comments. -/
def blogSelection : List FieldNode :=
  [plainNode "title" [],
    plainNode "comments" [plainNode "data" [plainNode "body" []], plainNode "total" []]]

lemma envelopesApart_blog : blog.EnvelopesApart :=
  Registry.envelopesApart_of_typeNames (by decide +kernel)

lemma relationsApart_blog : blog.RelationsApart := by
  have hall : blog.allDescribed (fun t => t.fields.all fun f =>
      !f.relation?.isSome || (!t.columnNames.contains f.name && !t.aliasNames.contains f.name)) =
      true := by decide +kernel
  intro name t ht f hf hrelation
  have hcheck := List.all_eq_true.1 (Registry.allDescribed_eq_true_iff.1 hall name t ht) f hf
  simpa [hrelation] using hcheck

lemma privacyRespectsSame_blog : blog.PrivacyRespectsSame :=
  Registry.privacyRespectsSame_of_isNone (by decide +kernel)

/-- A post as a storage has it, with a page of its comments. -/
def blogPost : Value :=
  .object [("id", .int 1), ("headline", .string "Rows"), ("draft", .bool false),
    ("comments", .object [
      ("data", .array [.object [("id", .int 10), ("body", .string "First"), ("post_id", .int 1)]]),
      ("total", .int 1)])]

/-- The post is shaped as well without its `draft`, and the comment without its `id`. -/
theorem shape_restrict_blogPost :
    ∃ p, project ⟨blog, fun _ => none⟩ "Post" blogSelection = .ok p ∧
      shape ⟨blog, fun _ => none⟩ "Post" (blogPost.restrict p false) blogSelection =
        shape ⟨blog, fun _ => none⟩ "Post" blogPost blogSelection := by
  have hok : (project ⟨blog, fun _ => none⟩ "Post" blogSelection).isOk = true := by
    decide +kernel
  cases hp : project ⟨blog, fun _ => none⟩ "Post" blogSelection with
  | error e =>
    rw [hp] at hok
    cases hok
  | ok p =>
    have hcoherent : Coherent blogSelection :=
      .of_coherentTo (by decide : coherentTo 4 blogSelection = true)
    have hargs : ArgumentsDistinct blogSelection := .of_everyIn (by decide)
    have hstored : blog.FromStorage "Post" blogSelection :=
      .of_isStored (by decide +kernel) _ _
    have hpost : (blog.envelope? "Post").isSome = false := by decide +kernel
    have hshape := shape_restrict envelopesApart_blog relationsApart_blog
      privacyRespectsSame_blog hp hcoherent hargs hstored blogPost
    rw [hpost] at hshape
    exact ⟨p, rfl, hshape⟩

end Shaper

end GraphProjection
