import GraphProjection.Proofs.Isolation
import GraphProjection.Proofs.Projection.Covering
import GraphProjection.Proofs.Projection.Invariance

/-!
# Fields that are combined under one key

Fields of one response key are answered as one, by the first of them with the children of all.  They
should ask for the same field with the same arguments.  Whether they do is looked at in one place
only, when the fields of a type are projected, and there fields are put together by name.

So what is left unchecked is this.  At the root nothing is compared: a field behind another of its
key may have any name and any arguments (`grouped_replace`).  Below the root, names are compared
nowhere, and arguments only of fields of rows whose type is registered: neither of the fields of an
envelope nor of a type's own name, nor where the type is not known.  And that is all
(`sameArguments_of_reaches`): where names agree at every level that is answered, fields of rows have
the same arguments.

Main statement: **`agreedBelow_iff_of_answered`**.
-/

namespace GraphProjection

open FieldNode

namespace FieldNode

/-! ## Agreement -/

/-- Fields that are combined ask for one field with the same arguments. -/
def Agreed (nodes : List FieldNode) : Prop :=
  ∀ a ∈ nodes, ∀ b ∈ nodes, a.responseKey = b.responseKey →
    a.name = b.name ∧ Value.sameArguments a.arguments b.arguments = true

/-- Fields that are combined have one name, and the same arguments where they ask for the name of
the type. -/
def AgreedInName (nodes : List FieldNode) : Prop :=
  ∀ a ∈ nodes, ∀ b ∈ nodes, a.responseKey = b.responseKey →
    a.name = b.name ∧
      (a.name = typename → Value.sameArguments a.arguments b.arguments = true)

lemma Agreed.inName {nodes : List FieldNode} (h : Agreed nodes) : AgreedInName nodes :=
  fun a ha b hb hkey => ⟨(h a ha b hb hkey).1, fun _ => (h a ha b hb hkey).2⟩

lemma AgreedInName.names {nodes : List FieldNode} (h : AgreedInName nodes) :
    ∀ a ∈ nodes, ∀ b ∈ nodes, a.responseKey = b.responseKey → a.name = b.name :=
  fun a ha b hb hkey => (h a ha b hb hkey).1

lemma ArgumentsKeyed.keyed {nodes : List FieldNode} (h : ArgumentsKeyed nodes) :
    Keyed nodes := by
  intro path arguments hasks
  obtain ⟨node, hnode, rfl⟩ := hasks.exists_occurs
  exact h node hnode

/-! ## Fields behind others of their key -/

section Replace

variable {before after : List FieldNode} {later other : FieldNode}

lemma firsts_replace (hkey : other.responseKey = later.responseKey) {seen : List String}
    (hseen : later.responseKey ∈ seen ∨ ∃ first ∈ before, first.responseKey = later.responseKey) :
    firsts (before ++ other :: after) seen = firsts (before ++ later :: after) seen := by
  -- The later field is not the first of its key, so neither is what stands in its place.
  induction before generalizing seen with
  | nil =>
    have hmem : later.responseKey ∈ seen := hseen.resolve_right (by simp)
    have hcontains := List.contains_iff_mem.2 hmem
    rw [List.nil_append, List.nil_append, firsts, firsts, hkey, if_pos hcontains,
      if_pos hcontains]
  | cons node rest ih =>
    rw [List.cons_append, List.cons_append, firsts, firsts]
    by_cases hknown : seen.contains node.responseKey = true
    · rw [if_pos hknown, if_pos hknown]
      refine ih ?_
      rcases hseen with hseen | ⟨first, hfirst, heq⟩
      · exact .inl hseen
      · rcases List.mem_cons.1 hfirst with rfl | hfirst
        · exact .inl (heq ▸ List.contains_iff_mem.1 hknown)
        · exact .inr ⟨first, hfirst, heq⟩
    · rw [if_neg hknown, if_neg hknown]
      refine congrArg (node :: ·) (ih ?_)
      rcases hseen with hseen | ⟨first, hfirst, heq⟩
      · exact .inl (List.mem_cons_of_mem _ hseen)
      · rcases List.mem_cons.1 hfirst with rfl | hfirst
        · exact .inl (heq ▸ List.mem_cons_self)
        · exact .inr ⟨first, hfirst, heq⟩

/-- Of a field behind another of its key only the key and the children are looked at. -/
theorem grouped_replace (hfirst : ∃ first ∈ before, first.responseKey = later.responseKey)
    (hkey : other.responseKey = later.responseKey) (hchildren : other.children = later.children) :
    grouped (before ++ other :: after) = grouped (before ++ later :: after) := by
  have hbelow : ∀ key, childrenOf ((before ++ other :: after).filter (·.responseKey == key)) =
      childrenOf ((before ++ later :: after).filter (·.responseKey == key)) := by
    intro key
    simp only [childrenOf, List.filter_append, List.filter_cons, hkey, List.flatMap_append]
    split
    · rw [List.flatMap_cons, List.flatMap_cons, hchildren]
    · rfl
  rw [grouped, grouped, firsts_replace hkey (.inr hfirst)]
  simp only [hbelow]

end Replace

end FieldNode

/-! ## Levels of an answer -/

namespace Shaper

/-- Whoever shapes an object of a type with a selection comes to objects of types with selections:
to the items of an envelope, to what relations hold that are seen, and, where a type is not
registered, to whatever its fields hold. -/
inductive Reaches (x : Shaper) : String → List FieldNode → String → List FieldNode → Prop
  | here (type : String) (nodes : List FieldNode) : Reaches x type nodes type nodes
  | items {type item target : String} {kind : PageKind} {nodes deep : List FieldNode}
      {g : ResponseField} (envelope : x.registry.envelope? type = some (kind, item))
      (mem : g ∈ grouped nodes) (data : g.node.name = "data")
      (below : Reaches x item g.children target deep) : Reaches x type nodes target deep
  | relation {type target : String} {nodes deep : List FieldNode} {t : OutputType}
      {g : ResponseField} {f : FieldDescriptor} {r : RelationDescriptor}
      (row : x.registry.envelope? type = none) (described : x.registry.describe type = .ok (some t))
      (mem : g ∈ grouped nodes) (sees : Projector.Sees ⟨x.registry, x.services⟩ t g.node f)
      (stored : f.resolver = none) (kind : f.kind = .relation r)
      (below : Reaches x f.type.namedType g.children target deep) : Reaches x type nodes target deep
  | unknown {type target : String} {nodes deep : List FieldNode} {g : ResponseField}
      (row : x.registry.envelope? type = none) (described : x.registry.describe type = .ok none)
      (mem : g ∈ grouped nodes) (htypename : g.node.name ≠ typename)
      (below : Reaches x type g.children target deep) : Reaches x type nodes target deep

end Shaper

/-- Objects of a type are rows whose fields are known. -/
def Registry.HasRows (r : Registry) (type : String) : Prop :=
  r.envelope? type = none ∧ ∃ t, r.describe type = .ok (some t)

namespace Shaper

open Projector

/-- Below a type that is not registered no type is known. -/
lemma Reaches.eq_of_unknown {x : Shaper} {type target : String} {nodes deep : List FieldNode}
    (h : Reaches x type nodes target deep) (hrow : x.registry.envelope? type = none)
    (hunknown : x.registry.describe type = .ok none) : target = type := by
  induction h with
  | here => rfl
  | items envelope => cases hrow.symm.trans envelope
  | relation _ described => cases hunknown.symm.trans described
  | unknown _ _ _ _ _ ih => exact ih hrow hunknown

/-- Fields of one name of a row have the same arguments, at every level that is reached through
fields whose names agree.  The projection was made of more fields than are reached: of all those
below fields of one name. -/
theorem sameArguments_of_reaches {r : Registry} {services : ServiceLocator}
    (hapart : r.EnvelopesApart) (hprivacy : r.PrivacyRespectsSame) {type target : String}
    {selected deep : List FieldNode} (h : Reaches ⟨r, services⟩ type selected target deep)
    (hrows : r.HasRows target) {nodes : List FieldNode} {p : Projection}
    (hcovers : Covers ⟨r, services⟩ type nodes p) (hargs : ArgumentsKeyed nodes)
    (hsubset : selected ⊆ nodes)
    (hnames : ∀ name level, Reaches ⟨r, services⟩ type selected name level → AgreedInName level)
    {a b : FieldNode} (ha : a ∈ deep) (hb : b ∈ deep) (hname : a.name = b.name)
    (htypename : a.name ≠ typename) : Value.sameArguments a.arguments b.arguments = true := by
  -- The induction is on how the fields are reached. On the way down the projection is exchanged for
  -- that of the relation, which covers all fields of the name, not only those of one key.
  induction h generalizing nodes p with
  | here type selected =>
    obtain ⟨hrow, t, ht⟩ := hrows
    have hcheck := hcovers.checkFields hrow ht
    have hsame := ((OutputType.checkFields_eq_ok_iff hargs.keyed).1 hcheck a.name htypename
      a.arguments (.here (hsubset ha))).2
    exact hsame b.arguments (hname ▸ .here (hsubset hb))
  | @items type item target kind selected deep g henvelope hg hdata _ ih =>
    have hnot : g.node.name ≠ typename := by
      rw [hdata]
      decide
    have hbelow := children_subset_requested (hnames _ _ (.here _ _)).names hg hsubset hnot
    rw [hdata, ← envelopeItems_eq] at hbelow
    refine ih hrows (hcovers.items_of_envelope henvelope (hapart.item henvelope))
      (hargs.childrenOf List.filter_sublist.subset) hbelow (fun name level hlevel => ?_) ha hb
    exact hnames name level (.items henvelope hg hdata hlevel)
  | @relation type target selected deep t g f relation hrow ht hg hsees hstored hkind _ ih =>
    have hmem : g.node ∈ nodes := hsubset (mem_grouped hg).1
    obtain ⟨entry, child, -, -, hchild⟩ :=
      hcovers.below hrow ht hprivacy hargs.distinct hmem hsees hkind
    refine ih hrows hchild (hargs.childrenOf (requested_subset _ _))
      (children_subset_requested (hnames _ _ (.here _ _)).names hg hsubset hsees.1)
      (fun name level hlevel => ?_) ha hb
    exact hnames name level (.relation hrow ht hg hsees hstored hkind hlevel)
  | @unknown type target selected deep g hrow hunknown hg hnot hbelow _ =>
    obtain ⟨-, t, ht⟩ := hrows
    rw [hbelow.eq_of_unknown hrow hunknown] at ht
    cases hunknown.symm.trans ht

end Shaper

/-! ## Root fields without errors -/

namespace Schema

/-- Whoever answers a root field comes to objects of a type with a selection. -/
def ReachesBelow (s : Schema) (r : ResponseField) (type : String) (deep : List FieldNode) : Prop :=
  r.node.name ≠ typename ∧ ∃ field, s.field? r.node.name = some field ∧
    Shaper.Reaches ⟨s.registry, s.services⟩ field.type.namedType r.children type deep

/-- Fields that are combined below a root field agree. -/
def AgreedBelow (s : Schema) (r : ResponseField) : Prop :=
  ∀ type deep, s.ReachesBelow r type deep → Agreed deep

/-- Of the fields that are combined below a root field those that nobody compares agree: their
names, and their arguments unless they are fields of rows. -/
def UncheckedAgreedBelow (s : Schema) (r : ResponseField) : Prop :=
  ∀ type deep, s.ReachesBelow r type deep →
    AgreedInName deep ∧ (¬ s.registry.HasRows type → Agreed deep)

/-- A root field without errors, in a response, has a projection. -/
lemma exists_project_of_answered {s : Schema} {storage : Storage} {nodes : List FieldNode}
    {r : ResponseField} (hr : r ∈ grouped nodes)
    (h : ((s.answerAll storage nodes).response.under r.key).2 = [])
    (htypename : r.node.name ≠ typename) {field : RootField}
    (hfield : s.field? r.node.name = some field) :
    ∃ p, Projector.project ⟨s.registry, s.services⟩ field.type.namedType r.children = .ok p := by
  rw [under_answerAll s storage hr] at h
  cases hprepare : s.prepare field r with
  | error e =>
    have houtcome : (s.resolveRoot storage r).outcome = .error e := by
      simp only [resolveRoot, hfield, hprepare]
      rfl
    rw [answerRoot_of_error htypename houtcome] at h
    cases h
  | ok p =>
    obtain ⟨bound, q, hq, -⟩ := exists_project_of_prepare hprepare
    exact ⟨q, hq⟩

/-- **What is compared of fields that are combined.**  At the root nobody compares any: the response
is the same whatever the name and the arguments of a field behind another of its key.  Under a root
key without errors, combined fields agree at every level below the root exactly when those agree
that nobody compares. -/
theorem agreedBelow_iff_of_answered {s : Schema} (storage : Storage) {request : Request}
    {nodes : List FieldNode} (hnodes : s.requestedFields request = .ok nodes) :
    (∀ before later after other, nodes = before ++ later :: after →
      (∃ first ∈ before, first.responseKey = later.responseKey) →
      other.responseKey = later.responseKey → other.children = later.children →
      s.answerAll storage (before ++ other :: after) = s.execute storage request) ∧
    (s.registry.EnvelopesApart → s.registry.PrivacyRespectsSame →
      Value.Keyed (.object request.variableValues) →
      ∀ r ∈ grouped nodes, ((s.execute storage request).response.under r.key).2 = [] →
        (s.AgreedBelow r ↔ s.UncheckedAgreedBelow r)) := by
  have hexecute : s.execute storage request = s.answerAll storage nodes := by
    rw [execute, hnodes]
  refine ⟨?_, fun hapart hprivacy hvariables r hr herrors =>
    ⟨fun h type deep hdeep => ?_, fun h type deep hdeep => ?_⟩⟩
  · rintro before later after other rfl hfirst hkey hchildren
    rw [hexecute, answerAll, answerAll, grouped_replace hfirst hkey hchildren]
  · exact ⟨(h type deep hdeep).inName, fun _ => h type deep hdeep⟩
  · have hargs : ArgumentsKeyed nodes := Document.argumentsKeyed_of_expandText hvariables hnodes
    -- Fields are only projected, and hence compared, where they are asked of rows.
    by_cases hrows : s.registry.HasRows type
    · rw [hexecute] at herrors
      obtain ⟨htypename, field, hfield, hreaches⟩ := hdeep
      obtain ⟨p, hp⟩ := exists_project_of_answered hr herrors htypename hfield
      intro a ha b hb hkey
      obtain ⟨hname, hsame⟩ := (h type deep ⟨htypename, field, hfield, hreaches⟩).1 a ha b hb hkey
      refine ⟨hname, ?_⟩
      by_cases hown : a.name = typename
      · exact hsame hown
      · exact Shaper.sameArguments_of_reaches hapart hprivacy hreaches hrows
          (Projector.covers_of_project hp) (hargs.children hr) (List.Subset.refl _)
          (fun name level hlevel => (h name level ⟨htypename, field, hfield, hlevel⟩).1)
          ha hb hname hown
    · exact (h type deep hdeep).2 hrows

/-- The title of the posts of one title, and the keys of those of another, under one key. -/
def twiceRequest : Request where
  query := "\x7b posts(title: \"Rows\") \x7b title \x7d posts(title: \"Draft\") \x7b id \x7d \x7d"

/-- The second title is ignored: nobody compares it with the first, there is no error, and the
response is that of asking for one title twice. -/
theorem agreedBelow_iff_of_twiceRequest :
    ∃ first later r, blogSchema.requestedFields twiceRequest = .ok [first, later] ∧
      first.responseKey = later.responseKey ∧
      Value.sameArguments first.arguments later.arguments = false ∧
      r ∈ grouped [first, later] ∧
      ((blogSchema.execute blogStorage twiceRequest).response.under r.key).2 = [] ∧
      (blogSchema.AgreedBelow r ↔ blogSchema.UncheckedAgreedBelow r) ∧
      blogSchema.answerAll blogStorage [first, { later with arguments := first.arguments }] =
        blogSchema.execute blogStorage twiceRequest := by
  -- The text is expanded by evaluation; what is needed of the two fields is read off there.
  have hrun : ((blogSchema.requestedFields twiceRequest).toOption.any fun nodes =>
      nodes.map (·.responseKey) == ["posts", "posts"] &&
        nodes.head?.any fun first => nodes.tail.all fun later =>
          !Value.sameArguments first.arguments later.arguments) = true := by decide +kernel
  have herrors : ((blogSchema.execute blogStorage twiceRequest).response.under "posts").2.isEmpty =
      true := by decide +kernel
  cases hnodes : blogSchema.requestedFields twiceRequest with
  | error e =>
    rw [hnodes] at hrun
    cases hrun
  | ok nodes =>
    rw [hnodes] at hrun
    rcases nodes with - | ⟨first, - | ⟨later, - | ⟨more, rest⟩⟩⟩ <;>
      simp [Except.toOption] at hrun
    obtain ⟨⟨hfirst, hlater⟩, hdifferent⟩ := hrun
    have hkey : first.responseKey = later.responseKey := hfirst.trans hlater.symm
    have hvariables : Value.Keyed (.object twiceRequest.variableValues) := Value.Keyed.nil
    obtain ⟨hroot, hbelow⟩ := agreedBelow_iff_of_answered blogStorage hnodes
    have hr : ⟨first, childrenOf ([first, later].filter
        (·.responseKey == first.responseKey))⟩ ∈ grouped [first, later] :=
      List.mem_map.2 ⟨first, List.mem_cons_self, rfl⟩
    rw [← hfirst, List.isEmpty_iff] at herrors
    exact ⟨first, later, _, rfl, hkey, hdifferent, hr, herrors,
      hbelow narrowable_blog.envelopes narrowable_blog.privacy hvariables _ hr herrors,
      hroot [first] later [] _ rfl ⟨first, List.mem_singleton_self _, hkey⟩ rfl rfl⟩

end Schema

end GraphProjection
