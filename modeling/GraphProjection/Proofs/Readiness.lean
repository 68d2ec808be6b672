import GraphProjection.Proofs.Forcing.Policies
import GraphProjection.Proofs.Projection.Contributions
import GraphProjection.Proofs.Selection

/-!
# What can fail once a registry is built

A projection looks types up in three places: the type of the root, the rows of a relation that is
requested, and those of one that is forced.  Shaping looks up the type of every object.  In a
registry that was built all of these look-ups succeed, so what is left to go wrong is the fault of
whoever asks: `ProjectionError.BlamesSelection` is an error about a field that was selected, and
`ShapeError.BlamesInput` allows besides for a value that is no object.

A projection fails where the check of the selection or one of the contributions fails
(`projectType_eq_error`), and then the induction goes down the selection.  Shaping fails where the
shaping of a part of the value fails, and the induction goes down the value.

Main statement: **`blames_of_build`**.
-/

namespace GraphProjection

open FieldNode

/-! ## Errors that blame the input -/

/-- What is wrong is a field of the selection: its type does not have it, or it is selected with
other arguments as well. -/
inductive ProjectionError.BlamesSelection (nodes : List FieldNode) : ProjectionError → Prop
  | unknownField (type : String) {node : FieldNode} (selected : Occurs nodes node) :
      BlamesSelection nodes (.unknownField type node.name)
  | conflictingArguments (type : String) {node : FieldNode} (selected : Occurs nodes node) :
      BlamesSelection nodes (.conflictingArguments type node.name)

/-- What is wrong is a field of the selection, or the value is no object where one is needed. -/
inductive ShapeError.BlamesInput (nodes : List FieldNode) : ShapeError → Prop
  | unknownField (type : String) {node : FieldNode} (selected : Occurs nodes node) :
      BlamesInput nodes (.unknownField type node.name)
  | expectedObject (type : String) : BlamesInput nodes (.expectedObject type)

lemma ProjectionError.BlamesSelection.mono {nodes more : List FieldNode} {e : ProjectionError}
    (h : e.BlamesSelection nodes) (hmore : ∀ node, Occurs nodes node → Occurs more node) :
    e.BlamesSelection more := by
  cases h with
  | unknownField type selected => exact .unknownField type (hmore _ selected)
  | conflictingArguments type selected => exact .conflictingArguments type (hmore _ selected)

lemma ShapeError.BlamesInput.mono {nodes more : List FieldNode} {e : ShapeError}
    (h : e.BlamesInput nodes) (hmore : ∀ node, Occurs nodes node → Occurs more node) :
    e.BlamesInput more := by
  cases h with
  | unknownField type selected => exact .unknownField type (hmore _ selected)
  | expectedObject type => exact .expectedObject type

/-! ## Looking types up -/

/-- A registry that was built describes every name, be it by saying that it is not registered. -/
lemma Registry.exists_describe_of_build {d : Declarations} {r : Registry}
    (hbuild : d.build = .ok r) (name : String) : ∃ found, r.describe name = .ok found := by
  cases hregistered : r.isRegistered name with
  | true =>
    obtain ⟨t, ht⟩ := exists_describe_of_isRegistered hbuild hregistered
    exact ⟨some t, ht⟩
  | false =>
    have hnone : r.declaration? name = none := by simpa [isRegistered] using hregistered
    exact ⟨none, by rw [describe, hnone]⟩

/-! ## Projections -/

lemma OutputType.blamesSelection_of_checkFields {t : OutputType} {nodes earlier : List FieldNode}
    {e : ProjectionError} (h : t.checkFields nodes earlier = .error e) :
    e.BlamesSelection nodes := by
  induction nodes generalizing earlier with
  | nil => cases h
  | cons node rest ih =>
    have hlater : ∀ {earlier}, t.checkFields rest earlier = .error e →
        e.BlamesSelection (node :: rest) :=
      fun hrest => (ih hrest).mono fun _ hnode => hnode.mono (List.subset_cons_self node rest)
    rw [OutputType.checkFields] at h
    split at h
    · exact hlater h
    · split at h
      · cases h
        exact .unknownField t.name (.here List.mem_cons_self)
      · split at h
        · split at h
          · exact hlater h
          · cases h
            exact .conflictingArguments t.name (.here List.mem_cons_self)
        · exact hlater h

lemma PageKind.blamesSelection_of_checkFields {kind : PageKind} {type : String}
    {nodes : List FieldNode} {e : ProjectionError} (h : kind.checkFields type nodes = .error e) :
    e.BlamesSelection nodes := by
  induction nodes with
  | nil => cases h
  | cons node rest ih =>
    rw [PageKind.checkFields] at h
    split at h
    · exact (ih h).mono fun _ hnode => hnode.mono (List.subset_cons_self node rest)
    · cases h
      exact .unknownField type (.here List.mem_cons_self)

namespace Projector

variable {x : Projector} {t : OutputType} {f : FieldDescriptor} {type : String}
  {nodes : List FieldNode} {e : ProjectionError}

lemma blamesSelection_of_checkEnvelope {envelope : Option (PageKind × String)}
    (h : checkEnvelope envelope type nodes = .error e) : e.BlamesSelection nodes := by
  cases envelope with
  | none => cases h
  | some pair => exact PageKind.blamesSelection_of_checkFields h

/-- Parts are put together until one of them fails. -/
lemma foldlM_extend_eq_error {α ε : Type} {part : α → Except ε Contribution} {fields : List α}
    {p : Projection} {e : ε}
    (h : fields.foldlM (fun p f => (part f).map p.extend) p = .error e) :
    ∃ f ∈ fields, part f = .error e := by
  induction fields generalizing p with
  | nil => cases h
  | cons f rest ih =>
    rw [List.foldlM_cons] at h
    cases hpart : part f with
    | error other =>
      rw [hpart] at h
      cases h
      exact ⟨f, List.mem_cons_self, hpart⟩
    | ok c =>
      rw [hpart] at h
      obtain ⟨g, hg, hfails⟩ := ih h
      exact ⟨g, List.mem_cons_of_mem f hg, hfails⟩

/-- A type has no projection because the selection is not in order, or because a field fails to
contribute. -/
theorem projectType_eq_error (h : x.projectType t nodes = .error e) :
    t.checkFields nodes [] = .error e ∨ ∃ f ∈ t.fields, x.contribution t nodes f = .error e := by
  have hstep : x.addField t nodes (fun target below _ => x.projectType target below) =
      fun p f => (x.contribution t nodes f).map p.extend := by
    funext p f
    exact addField_eq x t nodes p f
  rw [projectType, hstep] at h
  split at h
  · next hcheck =>
    cases h
    exact .inl hcheck
  · exact .inr (foldlM_extend_eq_error h)

/-- A relation that is forced contributes, where the type of its rows is described. -/
lemma exists_forcedContribution (htargets : x.registry.TargetsDescribed)
    (ht : x.registry.describe type = .ok (some t)) (hf : f ∈ t.fields) :
    ∃ c, x.forcedContribution t f = .ok c := by
  rw [forcedContribution]
  cases hkind : f.kind with
  | relation r =>
    obtain ⟨target, htarget⟩ := htargets type t ht f hf r hkind
    simp only [Registry.expect_eq_ok_iff.2 htarget]
    split
    · split <;> exact ⟨_, rfl⟩
    · exact ⟨_, rfl⟩
  | _ => exact ⟨_, rfl⟩

/-- A field fails to contribute only if it is a relation, and then because of what is selected
below it. -/
theorem contribution_eq_error (htargets : x.registry.TargetsDescribed)
    (ht : x.registry.describe type = .ok (some t)) (hf : f ∈ t.fields)
    (h : x.contribution t nodes f = .error e) :
    ∃ first rest target, requested nodes f.name = first :: rest ∧
      x.registry.describe
        (itemType (x.registry.envelope? f.type.namedType) f.type.namedType) = .ok (some target) ∧
      (checkEnvelope (x.registry.envelope? f.type.namedType) f.type.namedType
          (childrenOf (first :: rest)) = .error e ∨
        x.projectType target (itemNodes (x.registry.envelope? f.type.namedType)
          (childrenOf (first :: rest))) = .error e) := by
  -- Columns that are always selected never fail.
  have hown : x.ownContribution t nodes f = .error e := by
    rw [contribution] at h
    cases hown : x.ownContribution t nodes f with
    | error other =>
      rw [hown] at h
      cases h
      rfl
    | ok c =>
      rw [hown] at h
      cases h
  rw [ownContribution] at hown
  split at hown
  · obtain ⟨c, hc⟩ := exists_forcedContribution htargets ht hf
    cases hc.symm.trans hown
  · next first rest hrequested =>
    rw [requestedContribution] at hown
    split at hown
    · cases hkind : f.kind with
      | relation r =>
        obtain ⟨target, htarget⟩ := htargets type t ht f hf r hkind
        refine ⟨first, rest, target, hrequested, htarget, ?_⟩
        simp only [hkind, relationContribution, Registry.expect_eq_ok_iff.2 htarget] at hown
        split at hown
        · next hcheck =>
          cases hown
          exact .inl hcheck
        · split at hown
          · next hproject =>
            cases hown
            exact .inr hproject
          · cases hown
      | _ =>
        rw [hkind] at hown
        cases hown
    · cases hown

/-- Where the rows of every relation are described, a type has no projection only because of the
selection. -/
theorem blamesSelection_of_projectType (htargets : x.registry.TargetsDescribed)
    (ht : x.registry.describe type = .ok (some t)) (h : x.projectType t nodes = .error e) :
    e.BlamesSelection nodes := by
  induction hdepth : depths nodes using Nat.strongRecOn generalizing type t nodes with
  | _ n ih =>
  subst hdepth
  rcases projectType_eq_error h with hcheck | ⟨f, hf, hfails⟩
  · exact OutputType.blamesSelection_of_checkFields hcheck
  · obtain ⟨first, rest, target, hrequested, htarget, hbelow⟩ :=
      contribution_eq_error htargets ht hf hfails
    have hsubset : first :: rest ⊆ nodes := hrequested ▸ requested_subset nodes f.name
    have hup : ∀ node, Occurs (childrenOf (first :: rest)) node → Occurs nodes node :=
      fun node hnode => hnode.of_childrenOf.mono hsubset
    rcases hbelow with hcheck | hproject
    · exact (blamesSelection_of_checkEnvelope hcheck).mono hup
    · have hlt := Nat.lt_of_le_of_lt
        (depths_itemNodes_le (x.registry.envelope? f.type.namedType) (childrenOf (first :: rest)))
        (depths_childrenOf_lt hsubset (List.cons_ne_nil first rest))
      exact (ih _ hlt htarget hproject rfl).mono fun node hnode => hup node hnode.of_itemNodes

end Projector

/-! ## Shaped values -/

/-- Induction on a value, over the items of a list and the members of an object. -/
lemma Value.induction_of_parts {motive : Value → Prop}
    (scalar : ∀ v : Value, (∀ items, v ≠ .array items) → (∀ members, v ≠ .object members) →
      motive v)
    (array : ∀ items : List Value, (∀ v ∈ items, motive v) → motive (.array items))
    (object : ∀ members : Row, (∀ name v, members.get? name = some v → motive v) →
      motive (.object members)) (v : Value) : motive v := by
  induction hsize : sizeOf v using Nat.strongRecOn generalizing v with
  | _ n ih =>
  subst hsize
  cases v with
  | array items =>
    refine array items fun v hv => ih _ ?_ v rfl
    have hlt := List.sizeOf_lt_of_mem hv
    simp only [Value.array.sizeOf_spec]
    omega
  | object members =>
    refine object members fun name v hv => ih _ ?_ v rfl
    have hlt := List.sizeOf_lt_of_mem (Entries.mem_of_get?_eq_some hv)
    simp only [Value.object.sizeOf_spec, Prod.mk.sizeOf_spec] at hlt ⊢
    omega
  | null => exact scalar _ (fun _ h => by cases h) fun _ h => by cases h
  | bool => exact scalar _ (fun _ h => by cases h) fun _ h => by cases h
  | int => exact scalar _ (fun _ h => by cases h) fun _ h => by cases h
  | double => exact scalar _ (fun _ h => by cases h) fun _ h => by cases h
  | string => exact scalar _ (fun _ h => by cases h) fun _ h => by cases h

namespace Shaper

variable {x : Shaper} {type : String} {nodes : List FieldNode} {e : ShapeError}

/-- Of the values without parts only null is shaped. -/
lemma shapeValue_scalar {v : Value} (harray : ∀ items, v ≠ .array items)
    (hobject : ∀ members, v ≠ .object members) (type : String) (nodes : List FieldNode) :
    x.shapeValue v type nodes =
      if v.isNull then .ok (.pure .null) else .error (.expectedObject type) := by
  cases v with
  | array items => exact absurd rfl (harray items)
  | object members => exact absurd rfl (hobject members)
  | null | bool | int | double | string =>
    rw [shapeValue]
    · rfl
    all_goals simp

lemma shapeValue_scalar_eq_ok {v : Value} {shaped : Shaped} (harray : ∀ items, v ≠ .array items)
    (hobject : ∀ members, v ≠ .object members) (h : x.shapeValue v type nodes = .ok shaped) :
    v = .null ∧ shaped = .pure .null := by
  rw [shapeValue_scalar harray hobject] at h
  cases v with
  | null =>
    cases h
    exact ⟨rfl, rfl⟩
  | bool | int | double | string | array | object => cases h

lemma shapeItems_eq_error {items : List Value} {n : Nat}
    (h : shapeItems x items n type nodes = .error e) :
    ∃ v ∈ items, x.shapeValue v type nodes = .error e := by
  induction items generalizing n with
  | nil =>
    rw [shapeItems] at h
    cases h
  | cons v rest ih =>
    rw [shapeItems] at h
    split at h
    · next hfirst =>
      cases h
      exact ⟨v, List.mem_cons_self, hfirst⟩
    · split at h
      · next hrest =>
        cases h
        obtain ⟨w, hw, hfails⟩ := ih hrest
        exact ⟨w, List.mem_cons_of_mem v hw, hfails⟩
      · cases h

lemma shapeFields_eq_error {shape : ResponseField → ShapeResult} {fields : List ResponseField}
    (h : shapeFields shape fields = .error e) : ∃ r ∈ fields, shape r = .error e := by
  induction fields with
  | nil => cases h
  | cons r rest ih =>
    rw [shapeFields] at h
    split at h
    · next hfirst =>
      cases h
      exact ⟨r, List.mem_cons_self, hfirst⟩
    · split at h
      · next hrest =>
        cases h
        obtain ⟨g, hg, hfails⟩ := ih hrest
        exact ⟨g, List.mem_cons_of_mem r hg, hfails⟩
      · cases h

lemma shapeObject_eq_error {shape : ResponseField → ShapeResult}
    (h : shapeObject shape nodes = .error e) : ∃ r ∈ grouped nodes, shape r = .error e := by
  rw [shapeObject] at h
  split at h
  · next hfields =>
    cases h
    exact shapeFields_eq_error hfields
  · cases h

/-- A member fails to be shaped only if it is there. -/
lemma shapeMember_eq_error {members : Row} {name : String}
    (h : shapeMember (shapeMembers x members) name type nodes = .error e) :
    ∃ v, members.get? name = some v ∧ x.shapeValue v type nodes = .error e := by
  rw [shapeMember, get?_shapeMembers] at h
  cases hv : members.get? name with
  | none =>
    rw [hv] at h
    cases h
  | some v =>
    rw [hv] at h
    exact ⟨v, rfl, h⟩

/-- A field of a row fails because its type does not have it, or as a relation. -/
lemma rowField_eq_error {t : OutputType} {members : Row} {r : ResponseField}
    (h : x.rowField t members (shapeMembers x members) r = .error e) :
    e = .unknownField t.name r.node.name ∨ ∃ name v type, members.get? name = some v ∧
      x.shapeValue v type r.children = .error e := by
  rw [rowField] at h
  split at h
  · cases h
  · split at h
    · cases h
      exact .inl rfl
    · next f hf =>
      rw [fieldValue] at h
      split at h
      · cases h
      · split at h
        · cases h
        · split at h
          · cases h
          · split at h <;> cases h
          · obtain ⟨v, hv, hfails⟩ := shapeMember_eq_error h
            exact .inr ⟨_, v, _, hv, hfails⟩
          · cases h

/-- A field of an envelope fails because the envelope does not have it, or below its data. -/
lemma envelopeField_eq_error {kind : PageKind} {item : String} {members : Row}
    {r : ResponseField}
    (h : envelopeField type kind item members (shapeMembers x members) r = .error e) :
    e = .unknownField type r.node.name ∨ ∃ name v type, members.get? name = some v ∧
      x.shapeValue v type r.children = .error e := by
  rw [envelopeField] at h
  split at h
  · cases h
  · split at h
    · obtain ⟨v, hv, hfails⟩ := shapeMember_eq_error h
      exact .inr ⟨_, v, _, hv, hfails⟩
    · split at h
      · cases h
      · cases h
        exact .inl rfl

/-- Where every name can be described, a value fails to be shaped only because of the selection or
because it is no object. -/
theorem blamesInput_of_shapeValue
    (hdescribe : ∀ name, ∃ found, x.registry.describe name = .ok found) {v : Value}
    (h : x.shapeValue v type nodes = .error e) : e.BlamesInput nodes := by
  induction v using Value.induction_of_parts generalizing type nodes with
  | array items ih =>
    rw [shapeValue] at h
    split at h
    · next hitems =>
      cases h
      obtain ⟨v, hv, hfails⟩ := shapeItems_eq_error hitems
      exact ih v hv hfails
    · cases h
  | object members ih =>
    -- The error of a member is that of the field that asks for it, or comes from below.
    have hfield : ∀ {type r}, r ∈ grouped nodes → (e = .unknownField type r.node.name ∨
        ∃ name v type, members.get? name = some v ∧ x.shapeValue v type r.children = .error e) →
        e.BlamesInput nodes := by
      rintro type r hr (rfl | ⟨name, v, below, hv, hfails⟩)
      · exact .unknownField type (.here (mem_grouped hr).1)
      · refine (ih name v hv hfails).mono fun node hnode => ?_
        rw [(mem_grouped hr).2] at hnode
        exact hnode.of_childrenOf.mono List.filter_sublist.subset
    rw [shapeValue, shapeMembersAs] at h
    split at h
    · obtain ⟨r, hr, hfails⟩ := shapeObject_eq_error h
      exact hfield hr (envelopeField_eq_error hfails)
    · obtain ⟨found, hfound⟩ := hdescribe type
      rw [hfound] at h
      cases found with
      | none => cases h
      | some t =>
        obtain ⟨r, hr, hfails⟩ := shapeObject_eq_error h
        exact hfield hr (rowField_eq_error hfails)
  | scalar v harray hobject =>
    rw [shapeValue_scalar harray hobject] at h
    split at h
    · cases h
    · cases h
      exact .expectedObject type

end Shaper

/-! ## Both together -/

namespace Declarations

open Projector

/-- **A registry that was built never fails at request time.**  Whatever the settings, the services,
the name of the type and the selection, a projection fails only because of a field that was
selected, and shaping only because of such a field or of a value that is no object; and whatever
relation a type has, its rows are of a type that is found, be it the relation's own or that of the
items of an envelope. -/
theorem blames_of_build {d : Declarations} {r : Registry} (hbuild : d.build = .ok r)
    (services : ServiceLocator) :
    (∀ type nodes e, project ⟨r, services⟩ type nodes = .error e → e.BlamesSelection nodes) ∧
    (∀ type value nodes e, Shaper.shape ⟨r, services⟩ type value nodes = .error e →
      e.BlamesInput nodes) ∧
    ∀ name t, r.describe name = .ok (some t) → ∀ f ∈ t.fields, ∀ relation,
      f.kind = .relation relation → ∃ target,
        r.expect (itemType (r.envelope? f.type.namedType) f.type.namedType) = .ok target := by
  have hdescribe := Registry.exists_describe_of_build hbuild
  have htargets := Registry.targetsDescribed_of_build hbuild
  refine ⟨fun type nodes e h => ?_, fun type value nodes e h => ?_, ?_⟩
  · rw [project] at h
    split at h
    · next hcheck =>
      cases h
      exact blamesSelection_of_checkEnvelope hcheck
    · -- A name may be unknown, but looking it up does not fail.
      obtain ⟨found, hfound⟩ := hdescribe (itemType (r.envelope? type) type)
      simp only [hfound] at h
      cases found with
      | none => cases h
      | some t =>
        refine (blamesSelection_of_projectType htargets hfound h).mono fun node hnode => ?_
        exact hnode.of_itemNodes
  · exact Shaper.blamesInput_of_shapeValue hdescribe h
  · intro name t ht f hf relation hkind
    obtain ⟨target, htarget⟩ := htargets name t ht f hf relation hkind
    exact ⟨target, Registry.expect_eq_ok_iff.2 htarget⟩

/-- The books of a page, and the publishers of the books that their authors wrote; but no book has
a publisher. -/
def publisherSelection : List FieldNode :=
  let publisher : FieldNode := ⟨none, "publisher", [], ⟨1, 5⟩, []⟩
  let page (nodes : List FieldNode) : FieldNode := ⟨none, "data", [], ⟨1, 4⟩, nodes⟩
  [page [⟨none, "author", [], ⟨1, 2⟩, [⟨none, "books", [], ⟨1, 3⟩, [page [publisher]]⟩]⟩]]

/-- In the catalog, where books and authors lead to each other and relations are forced, the
publishers are found wrong two relations down. -/
theorem blames_of_build_catalog : ∃ r,
    (catalog.withPolicy .eagerLoadRelations).build = .ok r ∧
    project ⟨r, fun _ => none⟩ "BookCursorPagination" publisherSelection =
      .error (.unknownField "Book" "publisher") ∧
    (ProjectionError.unknownField "Book" "publisher").BlamesSelection publisherSelection := by
  have hcheck : (catalog.withPolicy .eagerLoadRelations).build.toOption.map (fun r =>
      (project ⟨r, fun _ => none⟩ "BookCursorPagination" publisherSelection).map fun _ => ()) =
        some (.error (.unknownField "Book" "publisher")) := by decide +kernel
  cases hbuild : (catalog.withPolicy .eagerLoadRelations).build with
  | error e =>
    rw [hbuild] at hcheck
    cases hcheck
  | ok r =>
    rw [hbuild] at hcheck
    cases hproject : project ⟨r, fun _ => none⟩ "BookCursorPagination" publisherSelection with
    | error e =>
      simp only [Except.toOption, hproject, Option.map_some, Except.map] at hcheck
      cases hcheck
      exact ⟨r, rfl, hproject, (blames_of_build hbuild _).1 _ _ _ hproject⟩
    | ok p =>
      simp only [Except.toOption, hproject, Option.map_some, Except.map] at hcheck
      cases hcheck

end Declarations

end GraphProjection
