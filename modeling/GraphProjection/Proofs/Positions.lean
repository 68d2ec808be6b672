import GraphProjection.Proofs.Forcing
import GraphProjection.Proofs.Positions.Steps
import GraphProjection.Proofs.WritingOut

/-!
# Fragments go by the type of their position

`Expansion.Meets` says which selections of an operation expansion comes to, by which path of field
names and with which type at hand; a selection of a fragment that was dropped is not met.  Along a
path of relations the type at hand is that of the path (`Meets.parent_eq`), so a fragment met there
is kept where its condition is that type and dropped otherwise (`expandSelection_of_isFragment`),
and what is kept is among the fields selected at the path (`Meets.exists_part`), which are those
that the projection and shaping are given there.

Main statement: **`agree_of_build`**.
-/

namespace GraphProjection

open FieldNode

namespace Expansion

/-! ## Selections that are met -/

/-- Expansion of selections comes to a selection: by a path of fields, through fields and fragments
that are left in, and with a type at hand, if one is known. -/
inductive Meets (x : Expansion) : Option String → List Selection → List String → Option String →
    Selection → Prop
  | here {parent : Option String} {selections : List Selection} {s : Selection}
      (mem : s ∈ selections) : Meets x parent selections [] parent s
  | field {parent parentAt : Option String} {selections below : List Selection} {s : Selection}
      {path : List String} {key : Option Name} {name : Name} {arguments : List (String × Literal)}
      {directives : List Directive}
      (mem : .field key name arguments directives below ∈ selections)
      (included : Directive.included x.document x.variableValues directives = .ok true)
      (rest : Meets x (x.childType parent name.text) below path parentAt s) :
      Meets x parent selections (name.text :: path) parentAt s
  | inlineFragment {parent parentAt condition : Option String}
      {selections below : List Selection} {s : Selection} {path : List String}
      {directives : List Directive}
      (mem : .inlineFragment condition directives below ∈ selections)
      (included : Directive.included x.document x.variableValues directives = .ok true)
      (applies : typeMatches parent condition = true)
      (rest : Meets x (parent.or condition) below path parentAt s) :
      Meets x parent selections path parentAt s
  | spread {parent parentAt : Option String} {selections : List Selection} {s : Selection}
      {path : List String} {name : Name} {directives : List Directive} {f : Fragment}
      (mem : .spread name directives ∈ selections)
      (included : Directive.included x.document x.variableValues directives = .ok true)
      (found : x.document.fragment? name.text = some f)
      (applies : typeMatches parent (some f.condition) = true)
      (rest : Meets x (parent.or (some f.condition)) f.selections path parentAt s) :
      Meets x parent selections path parentAt s

/-- A selection is a fragment with a condition, written in place or spread by its name. -/
inductive IsFragment (d : Document) : Selection → String → List Directive → List Selection → Prop
  | inline (condition : String) (directives : List Directive) (selections : List Selection) :
      IsFragment d (.inlineFragment (some condition) directives selections) condition directives
        selections
  | spread {name : Name} {f : Fragment} (directives : List Directive)
      (found : d.fragment? name.text = some f) :
      IsFragment d (.spread name directives) f.condition directives f.selections

/-- A type is at hand at a selection, and fragments go by it: one that directives leave in is
replaced by its selections if the type is its condition, and by nothing otherwise. -/
structure GoesBy (x : Expansion) (parent : Option String) (s : Selection) (type : String) :
    Prop where
  parent_eq : parent = some type
  fragment : ∀ condition directives selections,
    IsFragment x.document s condition directives selections →
    Directive.included x.document x.variableValues directives = .ok true →
    x.expandSelection (x.expandSpread x.document.fragments) parent s =
      if condition = type then
        x.expandAll (x.expandSpread x.document.fragments) (some type) selections
      else .ok []

section Met

variable {x : Expansion} {parent parentAt : Option String} {selections : List Selection}
  {path : List String} {s : Selection}

/-- Along a path for which the types are known, the type at hand is the one that they give. -/
theorem Meets.parent_eq {r : Registry} (htypes : x.types = r.targetType?) {type target : String}
    (h : x.Meets (some type) selections path parentAt s)
    (halong : r.typeAlong type path = some target) : parentAt = some target := by
  -- Fragments keep the type at hand and fields change it, so it varies in the induction.
  obtain ⟨parent, hparent⟩ : ∃ parent, parent = some type := ⟨_, rfl⟩
  rw [← hparent] at h
  induction h generalizing type with
  | here _ =>
    rw [hparent]
    exact halong
  | @field parent parentAt selections below s path key name arguments directives _ _ _ ih =>
    obtain ⟨next, hnext, halong⟩ := Option.bind_eq_some_iff.1 halong
    refine ih halong ?_
    rw [childType, hparent, htypes]
    exact hnext
  | inlineFragment _ _ _ _ ih => exact ih halong (by rw [hparent]; rfl)
  | spread _ _ _ _ _ ih => exact ih halong (by rw [hparent]; rfl)

lemma spreads_subset_of_mem (h : s ∈ selections) :
    s.spreads ⊆ Selection.spreadsIn selections := by
  induction selections with
  | nil => cases h
  | cons first rest ih =>
    rw [Selection.spreadsIn]
    rcases List.mem_cons.1 h with rfl | h
    · exact List.subset_append_left _ _
    · exact List.Subset.trans (ih h) (List.subset_append_right _ _)

/-- What can be expanded to the end stays so in all that is met. -/
lemma Meets.expandable (h : x.Meets parent selections path parentAt s)
    (hspreads : ∀ name ∈ Selection.spreadsIn selections, x.document.Expandable name.text) :
    ∀ name ∈ s.spreads, x.document.Expandable name.text := by
  induction h with
  | here mem => exact fun name hname => hspreads name (spreads_subset_of_mem mem hname)
  | field mem _ _ ih =>
    refine ih fun name hname => hspreads name (spreads_subset_of_mem mem ?_)
    rwa [Selection.spreads]
  | inlineFragment mem _ _ _ ih =>
    refine ih fun name hname => hspreads name (spreads_subset_of_mem mem ?_)
    rwa [Selection.spreads]
  | @spread parent parentAt selections s path name directives f mem _ found _ _ ih =>
    have hname : x.document.Expandable name.text :=
      hspreads name (spreads_subset_of_mem mem (List.mem_singleton_self name))
    exact ih fun inner hinner => hname.of_spreads ⟨f, found, inner, hinner, rfl⟩

/-- A spread that applies stands for the body of its fragment. -/
lemma expandSpread_of_fragment? {name : Name} {f : Fragment}
    (hname : x.document.Expandable name.text) (hf : x.document.fragment? name.text = some f)
    (parent : Option String) :
    x.expandSpread x.document.fragments name parent =
      if typeMatches parent (some f.condition) = true then
        x.expandAll (x.expandSpread x.document.fragments) (parent.or (some f.condition))
          f.selections
      else .ok [] := by
  rw [x.solves_expandSpread name hname parent, spreadOnce, hf]

/-- A fragment is replaced by its selections if its condition is the type at hand, and by nothing
otherwise. -/
theorem expandSelection_of_isFragment {condition type : String} {directives : List Directive}
    {below : List Selection} (h : IsFragment x.document s condition directives below)
    (hincluded : Directive.included x.document x.variableValues directives = .ok true)
    (hspreads : ∀ name ∈ s.spreads, x.document.Expandable name.text) :
    x.expandSelection (x.expandSpread x.document.fragments) (some type) s =
      if condition = type then
        x.expandAll (x.expandSpread x.document.fragments) (some type) below
      else .ok [] := by
  have happlies : typeMatches (some type) (some condition) = true ↔ condition = type := by
    rw [typeMatches, beq_iff_eq, eq_comm]
  cases h with
  | inline _ _ _ => simp only [expandSelection, hincluded, happlies, Option.some_or]
  | @spread name f _ found =>
    have hname : x.document.Expandable name.text := hspreads name (List.mem_singleton_self name)
    rw [expandSelection, hincluded]
    simp only [expandSpread_of_fragment? hname found, happlies, Option.some_or]

/-! ## What is kept is selected -/

/-- What a selection expands to is a part of what all expand to. -/
lemma exists_part_of_expandAll {spread : Spreading} (h : s ∈ selections)
    {own : List FieldNode} (hown : x.expandAll spread parent selections = .ok own) :
    ∃ part, x.expandSelection spread parent s = .ok part ∧ part ⊆ own := by
  induction selections generalizing own with
  | nil => cases h
  | cons first rest ih =>
    rw [expandAll] at hown
    split at hown
    · cases hown
    · next nodes hnodes =>
      split at hown
      · cases hown
      · next more hmore =>
        cases hown
        rcases List.mem_cons.1 h with rfl | h
        · exact ⟨nodes, hnodes, List.subset_append_left _ _⟩
        · obtain ⟨part, hpart, hsubset⟩ := ih h hmore
          exact ⟨part, hpart, List.Subset.trans hsubset (List.subset_append_right _ _)⟩

/-- A field that is left in expands to one field, which has what is below it. -/
lemma exists_node_of_expandSelection {spread : Spreading} {key : Option Name} {name : Name}
    {arguments : List (String × Literal)} {directives : List Directive} {below : List Selection}
    (hincluded : Directive.included x.document x.variableValues directives = .ok true)
    {part : List FieldNode} (h : x.expandSelection spread parent
      (.field key name arguments directives below) = .ok part) :
    ∃ node, part = [node] ∧ node.name = name.text ∧
      x.expandAll spread (x.childType parent name.text) below = .ok node.children := by
  rw [expandSelection, hincluded] at h
  simp only at h
  split at h
  · cases h
  · split at h
    · cases h
    · next children hchildren =>
      cases h
      exact ⟨_, rfl, rfl, hchildren⟩

/-- What a selection expands to that is met by a path is among the fields selected along the path,
all of which are asked for. -/
theorem Meets.exists_part (h : x.Meets parent selections path parentAt s)
    (hspreads : ∀ name ∈ Selection.spreadsIn selections, x.document.Expandable name.text)
    {own nodes : List FieldNode}
    (hown : x.expandAll (x.expandSpread x.document.fragments) parent selections = .ok own)
    (hsubset : own ⊆ nodes) (htypename : typename ∉ path) :
    AskedAlong nodes path ∧ ∃ part,
      x.expandSelection (x.expandSpread x.document.fragments) parentAt s = .ok part ∧
        part ⊆ selectedAt nodes path := by
  -- Along the way what is expanded stays within what is selected: a field only adds to what is
  -- asked for under its name, and what a fragment expands to is left where it stands.
  induction h generalizing own nodes with
  | here mem =>
    obtain ⟨part, hpart, hin⟩ := exists_part_of_expandAll mem hown
    exact ⟨trivial, part, hpart, List.Subset.trans hin hsubset⟩
  | @field parent parentAt selections below s path key name arguments directives mem included _
      ih =>
    obtain ⟨part, hpart, hin⟩ := exists_part_of_expandAll mem hown
    obtain ⟨node, rfl, hname, hchildren⟩ := exists_node_of_expandSelection included hpart
    rw [List.mem_cons, not_or] at htypename
    have hnode : node ∈ requested nodes name.text :=
      mem_requested.2 ⟨hsubset (hin (List.mem_singleton_self node)), hname,
        fun heq => htypename.1 (heq.symm.trans hname)⟩
    have hbelow : node.children ⊆ childrenOf (requested nodes name.text) :=
      fun child hchild => mem_childrenOf.2 ⟨node, hnode, hchild⟩
    obtain ⟨hasked, hrest⟩ := ih (fun inner hinner => hspreads inner
      (spreads_subset_of_mem mem (by rwa [Selection.spreads]))) hchildren hbelow htypename.2
    exact ⟨⟨List.ne_nil_of_mem hnode, hasked⟩, hrest⟩
  | @inlineFragment parent parentAt condition selections below s path directives mem included
      applies _ ih =>
    obtain ⟨part, hpart, hin⟩ := exists_part_of_expandAll mem hown
    rw [expandSelection, included] at hpart
    simp only [if_pos applies] at hpart
    exact ih (fun inner hinner => hspreads inner
      (spreads_subset_of_mem mem (by rwa [Selection.spreads]))) hpart
      (List.Subset.trans hin hsubset) htypename
  | @spread parent parentAt selections s path name directives f mem included found applies _ ih =>
    obtain ⟨part, hpart, hin⟩ := exists_part_of_expandAll mem hown
    have hname : x.document.Expandable name.text :=
      hspreads name (spreads_subset_of_mem mem (List.mem_singleton_self name))
    rw [expandSelection, included] at hpart
    simp only [expandSpread_of_fragment? hname found, if_pos applies] at hpart
    exact ih (fun inner hinner => hname.of_spreads ⟨f, found, inner, hinner, rfl⟩) hpart
      (List.Subset.trans hin hsubset) htypename

end Met

end Expansion

/-! ## Agreement on the type of a position -/

/-- Projection and shaping of a selection go by a type at a path: the level that the path leads to
is the projection of what is selected there on that type, and belongs to a page if it is an
envelope; and every value that shaping comes to along the path stands in the response shaped as that
type.
The name of every type's own name is never projected, so there is nothing to say of levels below
it. -/
structure Registry.AgreesAt (r : Registry) (services : ServiceLocator) (root : String)
    (nodes : List FieldNode) (path : List String) (type : String) : Prop where
  projection : typename ∉ path → ∀ p level paged,
    Projector.project ⟨r, services⟩ root nodes = .ok p →
    p.levelAt? (r.envelope? root).isSome path = some (level, paged) →
    paged = (r.envelope? type).isSome ∧
      Projector.HasProjection ⟨r, services⟩ type (selectedAt nodes path) level
  shaping : ∀ value below b,
    Shaper.Descends ⟨r, services⟩ ⟨root, nodes, value⟩ below b →
    Shaper.fieldsAlong nodes below = path →
    b.type = type ∧ ∀ shaped, Shaper.shape ⟨r, services⟩ root value nodes = .ok shaped →
      ∃ own, Shaper.shape ⟨r, services⟩ type b.value b.nodes = .ok own ∧
        shaped.value.at? below = some own.value

lemma Registry.EnvelopesApart.agreesAt {r : Registry} (hapart : r.EnvelopesApart)
    (services : ServiceLocator) {root type : String} {path : List String}
    (hleads : r.LeadsTo root path type) {nodes : List FieldNode}
    (hasked : typename ∉ path → AskedAlong nodes path) :
    r.AgreesAt services root nodes path type where
  projection htypename p level paged hp hlevel :=
    (Projector.hasProjection_of_project hp).of_leadsTo hapart hleads (hasked htypename) hlevel
  shaping value below b hdescends halong := by
    have htype := hdescends.typeAlong
    simp only [halong] at htype
    obtain rfl : b.type = type := Option.some.inj (htype.symm.trans (hleads.typeAlong hapart))
    exact ⟨rfl, fun shaped hshape => hdescends.exists_shape hshape⟩

/-- The operation of a document that was expanded, all of whose spreads can be expanded. -/
lemma Document.exists_operation_of_expand {d : Document} {types : TypeInfo} {root : String}
    {name : Option String} {given : Arguments} {nodes : List FieldNode}
    (h : d.expand types root name given = .ok nodes) :
    ∃ operation, d.selectOperation name = .ok operation ∧
      (∀ spread ∈ Selection.spreadsIn operation.selections, d.Expandable spread.text) ∧
      (d.expansion types operation given).expandAll
        ((d.expansion types operation given).expandSpread d.fragments) (some root)
        operation.selections = .ok nodes := by
  rw [expand] at h
  split at h
  · cases h
  · next operation hselect =>
    split at h
    · cases h
    · next hcheck =>
      have hsound := (checkFragments_eq_ok_iff d operation).1 hcheck
      exact ⟨operation, hselect, fun spread hspread =>
        hsound.expandable (hsound.known spread hspread), h⟩

namespace Declarations

/-- **Expansion, projection and shaping agree on types.**

In a registry that is built and has no type that is named like an envelope, the three find the same
type below every relation of every registered type.  It is the named type of the relation; where
that is an envelope it is entered through `data` only, and there all three find the type of the
items.

So in any document that is expanded with what the registry knows, the type at hand at a selection
that is met along a path of relations is the one by which the projection and shaping go there: a
fragment is replaced by its selections, which are then selected at the path, if its condition is
that type, and by nothing otherwise. -/
theorem agree_of_build {d : Declarations} {r : Registry} (hbuild : d.build = .ok r)
    (hapart : r.EnvelopesApart) :
    (∀ type, r.isRegistered type = true → ∃ t, r.describe type = .ok (some t) ∧
      ∀ f ∈ t.fields, ∀ relation, f.kind = .relation relation →
        ∀ services, r.RelationAgrees services type t f relation) ∧
    ∀ (document : Document) root name given nodes,
      document.expand r.targetType? root name given = .ok nodes →
      ∃ operation, document.selectOperation name = .ok operation ∧
        ∀ path parent s type,
          (document.expansion r.targetType? operation given).Meets (some root)
            operation.selections path parent s →
          r.LeadsTo root path type →
          (document.expansion r.targetType? operation given).GoesBy parent s type ∧
            (typename ∉ path → ∃ part,
              (document.expansion r.targetType? operation given).expandSelection
                ((document.expansion r.targetType? operation given).expandSpread
                  document.fragments) parent s = .ok part ∧
              part ⊆ selectedAt nodes path) ∧
            ∀ services, r.AgreesAt services root nodes path type := by
  refine ⟨fun type htype => ?_, fun document root name given nodes hexpand => ?_⟩
  · obtain ⟨t, ht⟩ := Registry.exists_describe_of_isRegistered hbuild htype
    exact ⟨t, ht, fun f hf relation hkind services =>
      Registry.relationAgrees_of_build hbuild hapart services ht hf hkind⟩
  · obtain ⟨operation, hselect, hspreads, hnodes⟩ := Document.exists_operation_of_expand hexpand
    refine ⟨operation, hselect, fun path parent s type hmeets hleads => ?_⟩
    -- Expansion and projection start at the same type and take the same steps.
    have hparent : parent = some type := hmeets.parent_eq rfl (hleads.typeAlong hapart)
    have hpart := hmeets.exists_part hspreads hnodes (List.Subset.refl nodes)
    refine ⟨⟨hparent, fun condition directives selections hs hincluded => ?_⟩,
      fun htypename => (hpart htypename).2,
      fun services => hapart.agreesAt services hleads fun htypename => (hpart htypename).1⟩
    rw [hparent]
    exact Expansion.expandSelection_of_isFragment hs hincluded (hmeets.expandable hspreads)

/-- The comments of a post with their authors, asked for on a page; below the authors there are
fragments about users and about comments. -/
def threadOperation : Operation where
  name := none
  variableDefinitions := []
  selections := [.field none ⟨"comments", 0⟩ [] [] [
    .inlineFragment (some "CommentPagination") [] [.field none ⟨"data", 0⟩ [] [] [
      .field none ⟨"author", 0⟩ [] [] [
        .spread ⟨"Person", 0⟩ [],
        .inlineFragment (some "Comment") [] [.field none ⟨"body", 0⟩ [] [] []]]]]]]

/-- A document with this operation. -/
def thread : Document where
  source := []
  operations := [threadOperation]
  fragments := [⟨"Person", "User", [.field none ⟨"name", 0⟩ [] [] []]⟩]

/-- What expanding the operation on a post of the forum depends on. -/
def threadExpansion : Expansion :=
  thread.expansion Schema.forumSchema.registry.targetType? threadOperation []

lemma leadsTo_author : Schema.forumSchema.registry.LeadsTo "Post" ["comments", "data", "author"]
    "User" := by
  have hpage : Schema.forumSchema.registry.envelope? "CommentPagination" =
      some (.offset, "Comment") := by decide +kernel
  have hcomments : Schema.forumSchema.registry.Enters "Post" "comments" "CommentPagination" :=
    Registry.enters_of_relationType? (by decide +kernel)
  have hauthor : Schema.forumSchema.registry.Enters "Comment" "author" "User" :=
    Registry.enters_of_relationType? (by decide +kernel)
  exact .step hcomments (.step (.data hpage) (.step hauthor (.here "User")))

/-- Expansion comes to what is selected below the authors. -/
lemma meets_author {s : Selection} (h : s ∈ [Selection.spread ⟨"Person", 0⟩ [],
      .inlineFragment (some "Comment") [] [.field none ⟨"body", 0⟩ [] [] []]]) :
    ∃ parent, threadExpansion.Meets (some "Post") threadOperation.selections
      ["comments", "data", "author"] parent s := by
  have hpage : threadExpansion.childType (some "Post") "comments" = some "CommentPagination" := by
    decide +kernel
  refine ⟨_, .field List.mem_cons_self rfl (.inlineFragment List.mem_cons_self rfl ?_
    (.field List.mem_cons_self rfl (.field List.mem_cons_self rfl (.here h))))⟩
  rw [hpage]
  rfl

/-- Below the authors the fragment about users is kept and the one about comments is dropped, and
the authors are projected and shaped as users. -/
theorem agree_of_build_forum : ∃ nodes,
    Schema.forum.build = .ok Schema.forumSchema.registry ∧
    Schema.forumSchema.registry.EnvelopesApart ∧
    thread.expand Schema.forumSchema.registry.targetType? "Post" none [] = .ok nodes ∧
    threadExpansion.GoesBy (some "User") (.spread ⟨"Person", 0⟩ []) "User" ∧
    threadExpansion.GoesBy (some "User") (.inlineFragment (some "Comment") []
      [.field none ⟨"body", 0⟩ [] [] []]) "User" ∧
    Schema.forumSchema.registry.AgreesAt (fun _ => none) "Post" nodes
      ["comments", "data", "author"] "User" := by
  have hapart : Schema.forumSchema.registry.EnvelopesApart :=
    Registry.envelopesApart_of_typeNames (by decide +kernel)
  have hok :
      (thread.expand Schema.forumSchema.registry.targetType? "Post" none []).isOk = true := by
    decide +kernel
  obtain ⟨nodes, hexpand⟩ := exists_ok_of_isOk hok
  obtain ⟨operation, hselect, hagree⟩ :=
    (agree_of_build Schema.build_forum hapart).2 thread "Post" none [] nodes hexpand
  have hoperation : threadOperation = operation := by
    have hfirst : thread.selectOperation none = .ok threadOperation := rfl
    exact Except.ok.inj (hfirst.symm.trans hselect)
  subst hoperation
  obtain ⟨parent, hperson⟩ := meets_author List.mem_cons_self
  obtain ⟨parent', hcomment⟩ := meets_author (List.mem_cons_of_mem _ List.mem_cons_self)
  obtain ⟨huser, -, hplaces⟩ := hagree _ _ _ _ hperson leadsTo_author
  obtain ⟨hdropped, -, -⟩ := hagree _ _ _ _ hcomment leadsTo_author
  obtain rfl := huser.parent_eq
  obtain rfl := hdropped.parent_eq
  exact ⟨nodes, Schema.build_forum, hapart, hexpand, huser, hdropped, hplaces _⟩

end Declarations

end GraphProjection
