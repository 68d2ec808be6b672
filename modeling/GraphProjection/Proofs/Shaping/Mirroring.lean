import GraphProjection.Proofs.Isolation
import GraphProjection.Proofs.Readiness
import GraphProjection.Proofs.Denied.Shaping
import Mathlib.Logic.Relation

/-!
# Shaping mirrors the selection

What a value is shaped into has the form of the value and the keys of the selection:
`Shaper.Mirrors` says of a value and of what is shown of it that null answers null, a list answers a
list item by item, and the keys of an object are the response keys of what is asked of it, all the
way down.

How the selection is written does not matter beyond that.  `FieldNode.Rewording` is one change in
the writing, at any depth: a field is written a second time further down, or what is asked below it
is spread over several fields of its key.  `FieldNode.Rewordings` are any number of such changes, in
either direction.

Reworded fields have the same groups but for the fields below them, which are reworded in turn
(`reworded_of_rewording`): the first field of a key stays in its place, and the children under a key
are the same ones one after the other, or some of them once more further down.  So the argument goes
down the value and not down the selection.

Main statement: **`mirrors_of_shape`**.
-/

namespace GraphProjection

namespace FieldNode

/-! ## Ways to write a selection -/

/-- A field without the fields below it. -/
def bare (node : FieldNode) : FieldNode := { node with children := [] }

mutual

/-- A field as if it, and the fields below it, all stood in one place. -/
def unplaced : FieldNode → FieldNode
  | ⟨key, name, arguments, _, children⟩ =>
    ⟨key, name, arguments, Location.start, unplacedAll children⟩

/-- Fields as if they all stood in one place. -/
def unplacedAll : List FieldNode → List FieldNode
  | [] => []
  | node :: rest => node.unplaced :: unplacedAll rest

end

/-- The fields that are asked for under a response key, those below all fields of the key. -/
def askedUnder (nodes : List FieldNode) (key : String) : List FieldNode :=
  childrenOf (nodes.filter (·.responseKey == key))

/-- Further fields for one that stands before them are written among others.  They have its response
key, its name and its arguments. -/
inductive Spliced (node : FieldNode) : List FieldNode → List FieldNode → Prop
  | nil : Spliced node [] []
  | other {rest more : List FieldNode} (other : FieldNode) (h : Spliced node rest more) :
      Spliced node (other :: rest) (other :: more)
  | part {rest more : List FieldNode} {part : FieldNode}
      (key : part.responseKey = node.responseKey) (name : part.name = node.name)
      (arguments : part.arguments = node.arguments) (h : Spliced node rest more) :
      Spliced node rest (part :: more)

/-- One change in the writing of a selection: a field is written again further down, the copy
standing elsewhere in the text; or the fields below it are spread, the first of them staying below
the field and the others coming below further fields of its key, in the same order; or the fields
below it are changed in one of these ways. -/
inductive Rewording : List FieldNode → List FieldNode → Prop
  | repeats {before middle after : List FieldNode} {node copy : FieldNode}
      (same : copy.unplaced = node.unplaced) :
      Rewording (before ++ node :: (middle ++ after)) (before ++ node :: (middle ++ copy :: after))
  | splits {before rest more first : List FieldNode} {node : FieldNode}
      (parts : Spliced node rest more)
      (whole : askedUnder (before ++ { node with children := first } :: more) node.responseKey =
        askedUnder (before ++ node :: rest) node.responseKey) :
      Rewording (before ++ node :: rest) (before ++ { node with children := first } :: more)
  | inside {before after inner : List FieldNode} {node : FieldNode}
      (below : Rewording node.children inner) :
      Rewording (before ++ node :: after) (before ++ { node with children := inner } :: after)

/-- Any number of changes in the writing of a selection, in either direction. -/
def Rewordings : List FieldNode → List FieldNode → Prop := Relation.EqvGen Rewording

variable {nodes others : List FieldNode} {node : FieldNode}

/-- What no single change affects, none of several changes affects. -/
lemma Rewordings.lift {β : Type} {f : List FieldNode → β}
    (hstep : ∀ nodes others, Rewording nodes others → f nodes = f others)
    (h : Rewordings nodes others) : f nodes = f others := by
  induction h with
  | rel a b hab => exact hstep a b hab
  | refl a => rfl
  | symm a b _ ih => exact ih.symm
  | trans a b c _ _ ihab ihbc => exact ihab.trans ihbc

lemma Rewordings.trans {more : List FieldNode} (h : Rewordings nodes others)
    (h' : Rewordings others more) : Rewordings nodes more :=
  Relation.EqvGen.trans _ _ _ h h'

lemma Rewordings.of_eq (h : nodes = others) : Rewordings nodes others :=
  h ▸ Relation.EqvGen.refl nodes

/-! ### What is asked for under a key -/

lemma askedUnder_append (front back : List FieldNode) (key : String) :
    askedUnder (front ++ back) key = askedUnder front key ++ askedUnder back key := by
  simp [askedUnder, childrenOf]

lemma askedUnder_cons_of_eq {key : String} (h : node.responseKey = key)
    (rest : List FieldNode) :
    askedUnder (node :: rest) key = node.children ++ askedUnder rest key := by
  simp [askedUnder, childrenOf, h]

lemma askedUnder_cons_of_ne {key : String} (h : node.responseKey ≠ key)
    (rest : List FieldNode) : askedUnder (node :: rest) key = askedUnder rest key := by
  simp [askedUnder, h]

/-! ### Changes beside other fields -/

lemma Spliced.refl (node : FieldNode) (rest : List FieldNode) : Spliced node rest rest := by
  induction rest with
  | nil => exact .nil
  | cons next rest ih => exact .other next ih

lemma Spliced.append {rest more : List FieldNode} (h : Spliced node rest more)
    (after : List FieldNode) : Spliced node (rest ++ after) (more ++ after) := by
  induction h with
  | nil => exact .refl node after
  | other next _ ih => exact .other next ih
  | part key name arguments _ ih => exact .part key name arguments ih

/-- A change stays one when other fields stand before and after. -/
lemma Rewording.beside (h : Rewording nodes others) (front back : List FieldNode) :
    Rewording (front ++ nodes ++ back) (front ++ others ++ back) := by
  cases h with
  | @repeats before middle after node copy same =>
    have hbeside : Rewording ((front ++ before) ++ node :: (middle ++ (after ++ back)))
        ((front ++ before) ++ node :: (middle ++ copy :: (after ++ back))) := .repeats same
    simpa using hbeside
  | @splits before rest more first node parts whole =>
    have hbeside : Rewording ((front ++ before) ++ node :: (rest ++ back))
        ((front ++ before) ++ { node with children := first } :: (more ++ back)) := by
      refine .splits (parts.append back) ?_
      have hcons : ∀ (a : FieldNode) (b : List FieldNode),
          (front ++ before) ++ a :: (b ++ back) = front ++ ((before ++ a :: b) ++ back) := by simp
      rw [hcons, hcons, askedUnder_append, askedUnder_append, whole, ← askedUnder_append,
        ← askedUnder_append]
    simpa using hbeside
  | @inside before after inner node below =>
    have hbeside : Rewording ((front ++ before) ++ node :: (after ++ back))
        ((front ++ before) ++ { node with children := inner } :: (after ++ back)) := .inside below
    simpa using hbeside

lemma Rewording.beside_append (h : Rewording nodes others) (front back : List FieldNode) :
    Rewordings (front ++ (nodes ++ back)) (front ++ (others ++ back)) := by
  rw [← List.append_assoc, ← List.append_assoc]
  exact .rel _ _ (h.beside front back)

/-- Fields that all stand further up, but for their places, can be written again. -/
lemma rewordings_copies {front copies : List FieldNode}
    (h : ∀ copy ∈ copies, ∃ node ∈ front, copy.unplaced = node.unplaced)
    (back : List FieldNode) : Rewordings (front ++ back) (front ++ (copies ++ back)) := by
  induction copies generalizing front with
  | nil => exact .of_eq rfl
  | cons copy rest ih =>
    obtain ⟨node, hnode, hsame⟩ := h copy List.mem_cons_self
    have hcopy : Rewordings (front ++ back) (front ++ copy :: back) := by
      obtain ⟨before, middle, rfl⟩ := List.append_of_mem hnode
      have hstep : Rewording (before ++ node :: (middle ++ back))
          (before ++ node :: (middle ++ copy :: back)) := .repeats hsame
      exact .rel _ _ (by simpa using hstep)
    have hrest : Rewordings ((front ++ [copy]) ++ back) ((front ++ [copy]) ++ (rest ++ back)) :=
      ih fun other hother => by
        obtain ⟨node, hnode, hsame⟩ := h other (List.mem_cons_of_mem _ hother)
        exact ⟨node, List.mem_append_left _ hnode, hsame⟩
    exact hcopy.trans (by simpa using hrest)

/-! ### What is unplaced alike -/

lemma unplacedAll_eq_map (nodes : List FieldNode) :
    unplacedAll nodes = nodes.map unplaced := by
  induction nodes with
  | nil => rfl
  | cons node rest ih => rw [unplacedAll, ih, List.map_cons]

lemma unplaced_eq (node : FieldNode) :
    node.unplaced = ⟨node.key, node.name, node.arguments, Location.start,
      node.children.map unplaced⟩ := by
  cases node
  rw [unplaced, unplacedAll_eq_map]

section Copies

variable {copy : FieldNode} (h : copy.unplaced = node.unplaced)
include h

lemma responseKey_of_unplaced : copy.responseKey = node.responseKey := by
  rw [unplaced_eq, unplaced_eq, FieldNode.mk.injEq] at h
  rw [responseKey, responseKey, h.1, h.2.1]

lemma spliced_of_unplaced (middle after : List FieldNode) :
    Spliced node (middle ++ after) (middle ++ copy :: after) := by
  have hkey := responseKey_of_unplaced h
  rw [unplaced_eq, unplaced_eq, FieldNode.mk.injEq] at h
  induction middle with
  | nil => exact .part hkey h.2.1 h.2.2.1 (.refl node after)
  | cons next middle ih => exact .other next ih

lemma exists_child_of_unplaced {child : FieldNode} (hchild : child ∈ copy.children) :
    ∃ original ∈ node.children, child.unplaced = original.unplaced := by
  rw [unplaced_eq, unplaced_eq, FieldNode.mk.injEq] at h
  have hmem : child.unplaced ∈ node.children.map unplaced :=
    h.2.2.2.2 ▸ List.mem_map_of_mem hchild
  obtain ⟨original, horiginal, heq⟩ := List.mem_map.1 hmem
  exact ⟨original, horiginal, heq.symm⟩

end Copies

/-! ### The groups of reworded fields -/

/-- All changes have one form: a field keeps its place, with other fields below it, and further
fields of its key may come after. -/
theorem Rewording.exists_spliced (h : Rewording nodes others) :
    ∃ before node node' rest more, nodes = before ++ node :: rest ∧
      others = before ++ node' :: more ∧ node'.bare = node.bare ∧ Spliced node rest more := by
  cases h with
  | @repeats before middle after node copy same =>
    exact ⟨before, node, node, _, _, rfl, rfl, rfl, spliced_of_unplaced same middle after⟩
  | @splits before rest more first node parts _ =>
    exact ⟨before, node, _, rest, more, rfl, rfl, rfl, parts⟩
  | @inside before after inner node _ =>
    exact ⟨before, node, _, after, after, rfl, rfl, rfl, .refl node after⟩

lemma bare_eq_bare_iff {node' : FieldNode} :
    node'.bare = node.bare ↔ node'.key = node.key ∧ node'.name = node.name ∧
      node'.arguments = node.arguments ∧ node'.location = node.location := by
  simp [bare]

lemma responseKey_of_bare {node' : FieldNode} (h : node'.bare = node.bare) :
    node'.responseKey = node.responseKey := by
  obtain ⟨hkey, hname, -, -⟩ := bare_eq_bare_iff.1 h
  rw [responseKey, responseKey, hkey, hname]

/-- Fields of a key that was seen are not the first of it. -/
lemma firsts_of_spliced {rest more : List FieldNode} (h : Spliced node rest more)
    {seen : List String} (hseen : node.responseKey ∈ seen) :
    firsts more seen = firsts rest seen := by
  induction h generalizing seen with
  | nil => rfl
  | other next _ ih => rw [firsts, firsts, ih hseen, ih (List.mem_cons_of_mem _ hseen)]
  | @part rest more part key name arguments _ ih =>
    have hcontains : seen.contains part.responseKey = true :=
      List.contains_iff_mem.2 (key ▸ hseen)
    rw [firsts, if_pos hcontains, ih hseen]

/-- The first fields of all keys are the same, but for the fields below them. -/
lemma map_bare_firsts_of_rewording (h : Rewording nodes others) (seen : List String) :
    (firsts others seen).map bare = (firsts nodes seen).map bare := by
  obtain ⟨before, node, node', rest, more, rfl, rfl, hbare, hspliced⟩ := h.exists_spliced
  clear h
  induction before generalizing seen with
  | nil =>
    have hkey := responseKey_of_bare hbare
    rw [List.nil_append, List.nil_append, firsts, firsts, hkey]
    split
    · next hseen => rw [firsts_of_spliced hspliced (List.contains_iff_mem.1 hseen)]
    · rw [List.map_cons, List.map_cons, hbare, firsts_of_spliced hspliced List.mem_cons_self]
  | cons first before ih =>
    rw [List.cons_append, List.cons_append, firsts, firsts]
    split
    · exact ih seen
    · rw [List.map_cons, List.map_cons, ih]

lemma askedUnder_of_spliced {rest more : List FieldNode} (h : Spliced node rest more)
    {key : String} (hne : node.responseKey ≠ key) : askedUnder more key = askedUnder rest key := by
  induction h with
  | nil => rfl
  | @other rest more next _ ih =>
    by_cases hnext : next.responseKey = key
    · rw [askedUnder_cons_of_eq hnext, askedUnder_cons_of_eq hnext, ih]
    · rw [askedUnder_cons_of_ne hnext, askedUnder_cons_of_ne hnext, ih]
  | part hkey _ _ _ ih => rw [askedUnder_cons_of_ne (hkey ▸ hne), ih]

/-- Under another key than that of the field that is changed, the same is asked for. -/
lemma askedUnder_of_ne {node' : FieldNode} {rest more : List FieldNode}
    (hbare : node'.bare = node.bare) (h : Spliced node rest more) {key : String}
    (hne : node.responseKey ≠ key) (before : List FieldNode) :
    askedUnder (before ++ node' :: more) key = askedUnder (before ++ node :: rest) key := by
  rw [askedUnder_append, askedUnder_append, askedUnder_cons_of_ne hne,
    askedUnder_cons_of_ne (responseKey_of_bare hbare ▸ hne), askedUnder_of_spliced h hne]

/-- What is asked for under a key is reworded in turn. -/
lemma rewordings_askedUnder (h : Rewording nodes others) (key : String) :
    Rewordings (askedUnder nodes key) (askedUnder others key) := by
  cases h with
  | @repeats before middle after node copy same =>
    by_cases hkey : node.responseKey = key
    · have hcopy : copy.responseKey = key := (responseKey_of_unplaced same).trans hkey
      let front := askedUnder before key ++ (node.children ++ askedUnder middle key)
      -- The copy asks for nothing that has not been asked for in front of it.
      have hcopies : Rewordings (front ++ askedUnder after key)
          (front ++ (copy.children ++ askedUnder after key)) := by
        refine rewordings_copies (fun child hchild => ?_) _
        obtain ⟨original, horiginal, heq⟩ := exists_child_of_unplaced same hchild
        exact ⟨original, by simp [front, horiginal], heq⟩
      simpa [front, askedUnder_append, askedUnder_cons_of_eq hkey, askedUnder_cons_of_eq hcopy]
        using hcopies
    · exact .of_eq (askedUnder_of_ne rfl (spliced_of_unplaced same middle after) hkey before).symm
  | @splits before rest more first node parts whole =>
    by_cases hkey : node.responseKey = key
    · exact .of_eq (hkey ▸ whole.symm)
    · have hbare : ({ node with children := first } : FieldNode).bare = node.bare := rfl
      exact .of_eq (askedUnder_of_ne hbare parts hkey before).symm
  | @inside before after inner node below =>
    by_cases hkey : node.responseKey = key
    · have hchanged : ({ node with children := inner } : FieldNode).responseKey = key := hkey
      rw [askedUnder_append, askedUnder_append, askedUnder_cons_of_eq hkey,
        askedUnder_cons_of_eq hchanged]
      exact below.beside_append _ _
    · have hbare : ({ node with children := inner } : FieldNode).bare = node.bare := rfl
      exact .of_eq (askedUnder_of_ne hbare (.refl node after) hkey before).symm

end FieldNode

open FieldNode

/-- Two groups of one key that differ in the fields below them, and there only in the writing. -/
structure ResponseField.Reworded (r r' : ResponseField) : Prop where
  head : r'.node.bare = r.node.bare
  below : Rewordings r.children r'.children

lemma ResponseField.Reworded.key {r r' : ResponseField} (h : r.Reworded r') :
    r.key = r'.key :=
  (responseKey_of_bare h.head).symm

/-- Reworded fields have the same groups, but for the fields below them, which are reworded. -/
theorem FieldNode.reworded_of_rewording {nodes others : List FieldNode}
    (h : Rewording nodes others) :
    List.Forall₂ ResponseField.Reworded (grouped nodes) (grouped others) := by
  have hfirsts : List.Forall₂ (fun a b : FieldNode => b.bare = a.bare) (firsts nodes [])
      (firsts others []) := by
    have hmap := (map_bare_firsts_of_rewording h []).symm
    rw [← List.forall₂_eq_eq_eq, List.forall₂_map_left_iff, List.forall₂_map_right_iff] at hmap
    exact hmap.imp fun a b hab => hab.symm
  rw [grouped, grouped, List.forall₂_map_left_iff, List.forall₂_map_right_iff]
  refine hfirsts.imp fun first other hbare => ⟨hbare, ?_⟩
  rw [responseKey_of_bare hbare]
  exact rewordings_askedUnder h first.responseKey

lemma FieldNode.isEmpty_of_rewording {nodes others : List FieldNode}
    (h : Rewording nodes others) : nodes.isEmpty = others.isEmpty := by
  obtain ⟨before, node, node', rest, more, rfl, rfl, -, -⟩ := h.exists_spliced
  cases before <;> rfl

/-! ## Reworded selections shape alike -/

namespace Value

lemma readItemsBy_congr {items : List Value} {type : String} {nodes others : List FieldNode}
    (h : ∀ v ∈ items, v.readBy type nodes = v.readBy type others) :
    readItemsBy items type nodes = readItemsBy items type others := by
  induction items with
  | nil => rfl
  | cons v rest ih =>
    rw [readItemsBy, readItemsBy, h v List.mem_cons_self,
      ih fun w hw => h w (List.mem_cons_of_mem _ hw)]

lemma get?_readMembersBy (members : Row) (name : String) :
    Entries.get? (readMembersBy members) name =
      (members.get? name).map fun v type nodes => v.readBy type nodes := by
  induction members with
  | nil => simp [readMembersBy, Entries.get?]
  | cons pair rest ih =>
    obtain ⟨key, v⟩ := pair
    by_cases h : key = name
    · simp [readMembersBy, Entries.get?, h]
    · simpa [readMembersBy, Entries.get?, h] using ih

/-- What is read of an object for a field, under the key of the field. -/
def readField (members : Row) (type : String) (r : ResponseField) : String × Value :=
  (r.key,
    if r.node.name = typename then .string type
    else
      match members.get? r.node.name with
      | some v => v.readBy r.node.name r.children
      | none => .null)

lemma readBy_object (members : Row) (type : String) (nodes : List FieldNode) :
    (Value.object members).readBy type nodes =
      if nodes.isEmpty then .object members
      else .object ((grouped nodes).map (readField members type)) := by
  rw [readBy]
  split
  · rfl
  · refine congrArg Value.object (List.map_congr_left fun r _ => ?_)
    rw [readField, get?_readMembersBy]
    cases members.get? r.node.name <;> rfl

/-- Data without a registered type is read alike. -/
lemma readBy_of_rewordings (v : Value) (type : String) {nodes others : List FieldNode}
    (h : Rewordings nodes others) : v.readBy type nodes = v.readBy type others := by
  induction v using Value.induction_of_parts generalizing type nodes others with
  | array items ih =>
    rw [readBy, readBy, readItemsBy_congr fun v hv => ih v hv type h]
  | object members ih =>
    refine h.lift fun nodes others hstep => ?_
    have hmembers : (grouped nodes).map (readField members type) =
        (grouped others).map (readField members type) := by
      rw [← List.forall₂_eq_eq_eq, List.forall₂_map_left_iff, List.forall₂_map_right_iff]
      refine (reworded_of_rewording hstep).imp fun r r' hr => ?_
      obtain ⟨-, hname, -, -⟩ := bare_eq_bare_iff.1 hr.head
      rw [readField, readField, hr.key, hname]
      cases hv : members.get? r.node.name with
      | none => rfl
      | some v => simp only [ih _ v hv _ hr.below]
    rw [readBy_object, readBy_object, isEmpty_of_rewording hstep, hmembers]
  | scalar v harray hobject =>
    cases v with
    | array items => exact absurd rfl (harray items)
    | object members => exact absurd rfl (hobject members)
    | _ => rfl

end Value

namespace Shaper

variable {x : Shaper} {nodes others : List FieldNode}

lemma shapeItems_congr_nodes {items : List Value} {type : String}
    (h : ∀ v ∈ items, x.shapeValue v type nodes = x.shapeValue v type others) (n : Nat) :
    shapeItems x items n type nodes = shapeItems x items n type others := by
  induction items generalizing n with
  | nil => rw [shapeItems, shapeItems]
  | cons v rest ih =>
    rw [shapeItems, shapeItems, h v List.mem_cons_self,
      ih (fun w hw => h w (List.mem_cons_of_mem _ hw))]

lemma shapeFields_congr_groups {shape : ResponseField → ShapeResult}
    {fields reworded : List ResponseField} (h : List.Forall₂ ResponseField.Reworded fields reworded)
    (hshape : ∀ r r', r.Reworded r' → shape r = shape r') :
    shapeFields shape fields = shapeFields shape reworded := by
  induction h with
  | nil => rfl
  | cons hr _ ih => rw [shapeFields, shapeFields, hshape _ _ hr, ih, hr.key]

lemma shapeObject_congr_groups {shape : ResponseField → ShapeResult}
    (h : Rewording nodes others) (hshape : ∀ r r', r.Reworded r' → shape r = shape r') :
    shapeObject shape nodes = shapeObject shape others := by
  rw [shapeObject, shapeObject, shapeFields_congr_groups (reworded_of_rewording h) hshape]

lemma shapeMember_congr_nodes {members : Row}
    (h : ∀ name v, members.get? name = some v → ∀ type,
      x.shapeValue v type nodes = x.shapeValue v type others) (name type : String) :
    shapeMember (x.shapeMembers members) name type nodes =
      shapeMember (x.shapeMembers members) name type others := by
  rw [shapeMember, shapeMember, get?_shapeMembers]
  cases hv : members.get? name with
  | none => rfl
  | some v => exact h name v hv type

/-- An object is shaped alike where each of its members is. -/
lemma shapeMembersAs_of_rewording {members : Row} {type : String} (h : Rewording nodes others)
    (hbelow : ∀ r r' : ResponseField, r.Reworded r' → ∀ name type,
      shapeMember (x.shapeMembers members) name type r.children =
        shapeMember (x.shapeMembers members) name type r'.children) :
    x.shapeMembersAs members (x.shapeMembers members) type nodes =
      x.shapeMembersAs members (x.shapeMembers members) type others := by
  rw [shapeMembersAs, shapeMembersAs]
  split
  · refine shapeObject_congr_groups h fun r r' hr => ?_
    obtain ⟨-, hname, -, -⟩ := bare_eq_bare_iff.1 hr.head
    rw [envelopeField, envelopeField, hname, hbelow r r' hr]
  · split
    · rfl
    · refine shapeObject_congr_groups h fun r r' hr => ?_
      obtain ⟨-, hname, harguments, hlocation⟩ := bare_eq_bare_iff.1 hr.head
      simp only [rowField, fieldValue, hname, harguments, hlocation, hbelow r r' hr]
    · rw [Value.readBy_of_rewordings _ type (.rel _ _ h)]

/-- **Reworded selections shape alike**, whether shaping succeeds or fails. -/
theorem shapeValue_of_rewordings (v : Value) (type : String) (h : Rewordings nodes others) :
    x.shapeValue v type nodes = x.shapeValue v type others := by
  induction v using Value.induction_of_parts generalizing type nodes others with
  | array items ih =>
    rw [shapeValue, shapeValue, shapeItems_congr_nodes fun v hv => ih v hv type h]
  | object members ih =>
    refine h.lift fun nodes others hstep => ?_
    rw [shapeValue, shapeValue]
    exact shapeMembersAs_of_rewording hstep fun r r' hr =>
      shapeMember_congr_nodes fun name v hv type => ih name v hv type hr.below
  | scalar v harray hobject =>
    rw [shapeValue_scalar harray hobject, shapeValue_scalar harray hobject]

/-! ## The form of what is shaped -/

/-- What is shown of a value mirrors the value and the selection: null for null; for a list, as many
items in the same order, each mirroring its own; for a row of a registered type, or an envelope of
one, an object whose keys are the response keys of what is asked of it, in the order in which they
first appear, where a relation mirrors what is asked below all fields of its key, as does the data
of an envelope.  Of data without a registered type nothing is said. -/
inductive Mirrors (x : Shaper) : String → List FieldNode → Value → Value → Prop
  | null (type : String) (nodes : List FieldNode) : Mirrors x type nodes .null .null
  | list {type : String} {nodes : List FieldNode} {items shown : List Value}
      (length : shown.length = items.length)
      (order : ∀ (n : Nat) (v w : Value), items[n]? = some v → shown[n]? = some w →
        ∃ own, x.shape type v nodes = .ok own ∧ own.value = w)
      (each : ∀ (n : Nat) (v w : Value), items[n]? = some v → shown[n]? = some w →
        Mirrors x type nodes v w) :
      Mirrors x type nodes (.array items) (.array shown)
  | envelope {type item : String} {kind : PageKind} {nodes : List FieldNode} {members shown : Row}
      (envelope : x.registry.envelope? type = some (kind, item))
      (keys : shown.names = (nodes.map (·.responseKey)).eraseDups)
      (data : ∀ g ∈ grouped nodes, g.node.name = "data" → ∀ v w, members.get? "data" = some v →
        shown.get? g.key = some w → Mirrors x item g.children v w) :
      Mirrors x type nodes (.object members) (.object shown)
  | row {type : String} {nodes : List FieldNode} {t : OutputType} {members shown : Row}
      (envelope : x.registry.envelope? type = none)
      (described : x.registry.describe type = .ok (some t))
      (keys : shown.names = (nodes.map (·.responseKey)).eraseDups)
      (relations : ∀ g f relation, x.Allows t nodes g f → f.resolver = none →
        f.kind = .relation relation → ∀ v w, members.get? f.name = some v →
        shown.get? g.key = some w → Mirrors x f.type.namedType g.children v w) :
      Mirrors x type nodes (.object members) (.object shown)
  | untyped {type : String} {nodes : List FieldNode} {members : Row}
      (envelope : x.registry.envelope? type = none)
      (described : x.registry.describe type = .ok none) (shown : Value) :
      Mirrors x type nodes (.object members) shown

lemma names_of_shapeFields {shape : ResponseField → ShapeResult} {fields : List ResponseField}
    {members : Row} {errors : List FieldError}
    (h : shapeFields shape fields = .ok (members, errors)) :
    members.names = fields.map (·.key) := by
  induction fields generalizing members errors with
  | nil =>
    cases h
    rfl
  | cons g rest ih =>
    rw [shapeFields] at h
    split at h
    · cases h
    · split at h
      · cases h
      · next others later hrest =>
        cases h
        rw [Entries.names, List.map_cons, List.map_cons, ← Entries.names, ih hrest]

/-- The members of a shaped object stand under the response keys, each shaped for its field. -/
lemma shapeObject_eq_ok {shape : ResponseField → ShapeResult} {shaped : Shaped}
    (h : shapeObject shape nodes = .ok shaped) :
    ∃ shown : Row, shaped.value = .object shown ∧
      shown.names = (nodes.map (·.responseKey)).eraseDups ∧
      ∀ g ∈ grouped nodes, ∀ w, shown.get? g.key = some w →
        ∃ own, shape g = .ok own ∧ own.value = w := by
  rw [shapeObject] at h
  split at h
  · cases h
  · next members errors hfields =>
    cases h
    refine ⟨members, rfl, (names_of_shapeFields hfields).trans (map_key_grouped nodes), ?_⟩
    intro g hg w hw
    obtain ⟨own, hown, hfound⟩ := get?_of_shapeFields (nodup_key_grouped nodes) hfields hg
    exact ⟨own, hown, Option.some.inj (hfound.symm.trans hw)⟩

lemma mirrors_of_shapeMembersAs {members : Row} {type : String} {shaped : Shaped}
    (hbelow : ∀ name v, members.get? name = some v → ∀ type nodes own,
      x.shapeValue v type nodes = .ok own → x.Mirrors type nodes v own.value)
    (h : x.shapeMembersAs members (x.shapeMembers members) type nodes = .ok shaped) :
    x.Mirrors type nodes (.object members) shaped.value := by
  rw [shapeMembersAs] at h
  split at h
  · next kind item henvelope =>
    obtain ⟨shown, hshown, hkeys, hfields⟩ := shapeObject_eq_ok h
    rw [hshown]
    refine .envelope henvelope hkeys fun g hg hdata v w hv hw => ?_
    obtain ⟨own, hown, rfl⟩ := hfields g hg w hw
    rw [envelopeField_of_data hdata hv] at hown
    exact hbelow "data" v hv item g.children own hown
  · next henvelope =>
    split at h
    · cases h
    · next t ht =>
      obtain ⟨shown, hshown, hkeys, hfields⟩ := shapeObject_eq_ok h
      rw [hshown]
      refine .row henvelope ht hkeys fun g f relation hallows hresolver hkind v w hv hw => ?_
      obtain ⟨own, hown, rfl⟩ := hfields g hallows.mem w hw
      rw [rowField_of_relation hallows hresolver hkind hv] at hown
      exact hbelow f.name v hv f.type.namedType g.children own hown
    · next ht => exact .untyped henvelope ht shaped.value

/-- What a value is shaped into mirrors it. -/
lemma mirrors_of_shapeValue {v : Value} {type : String} {shaped : Shaped}
    (h : x.shapeValue v type nodes = .ok shaped) : x.Mirrors type nodes v shaped.value := by
  induction v using Value.induction_of_parts generalizing type nodes shaped with
  | array items ih =>
    rw [shapeValue] at h
    split at h
    · cases h
    · next values errors hitems =>
      cases h
      obtain ⟨hlength, hvalues⟩ := List.forall₂_iff_get.1 (shapeItems_eq_ok hitems)
      -- Shaping keeps the number of the items, so each stands where it stood.
      have horder : ∀ (n : Nat) (v w : Value), items[n]? = some v → values[n]? = some w →
          ∃ own, x.shapeValue v type nodes = .ok own ∧ own.value = w := by
        intro n v w hv hw
        obtain ⟨hn, rfl⟩ := List.getElem?_eq_some_iff.1 hv
        obtain ⟨hn', rfl⟩ := List.getElem?_eq_some_iff.1 hw
        obtain ⟨own, hown, hvalue⟩ := hvalues n hn hn'
        exact ⟨own, hown, hvalue.symm⟩
      refine .list hlength.symm horder fun n v w hv hw => ?_
      obtain ⟨own, hown, rfl⟩ := horder n v w hv hw
      exact ih v (List.mem_of_getElem? hv) hown
  | object members ih =>
    rw [shapeValue] at h
    exact mirrors_of_shapeMembersAs (fun name v hv type nodes own hown => ih name v hv hown) h
  | scalar v harray hobject =>
    obtain ⟨rfl, rfl⟩ := shapeValue_scalar_eq_ok harray hobject h
    exact .null type nodes

/-- **Shaping mirrors the selection.**  What a value is shaped into has the form of the value and
the keys of the selection, at every level; and however the selection is reworded, the value and the
errors are the same. -/
theorem mirrors_of_shape {type : String} {value : Value} {shaped : Shaped}
    (h : x.shape type value nodes = .ok shaped) :
    x.Mirrors type nodes value shaped.value ∧
      ∀ others, Rewordings nodes others → x.shape type value others = .ok shaped := by
  rw [shape] at h
  refine ⟨mirrors_of_shapeValue h, fun others hothers => ?_⟩
  rw [shape, ← shapeValue_of_rewordings value type hothers, h]

/-- The titles of posts, asked for twice, and their comments, asked for in two parts. -/
def scatteredSelection : List FieldNode :=
  [plainNode "title" [], plainNode "comments" [plainNode "data" [plainNode "body" []]],
    ⟨none, "title", [], ⟨3, 3⟩, []⟩, plainNode "comments" [plainNode "total" []]]

lemma rewordings_scatteredSelection : Rewordings blogSelection scatteredSelection := by
  let title := plainNode "title" []
  let comments := plainNode "comments" [plainNode "data" [plainNode "body" []],
    plainNode "total" []]
  let first := plainNode "comments" [plainNode "data" [plainNode "body" []]]
  let second := plainNode "comments" [plainNode "total" []]
  have hsplit : Rewording ([title] ++ comments :: []) ([title] ++ first :: [second]) :=
    .splits (.part rfl rfl rfl .nil) rfl
  have hrepeat : Rewording ([] ++ title :: ([first] ++ [second]))
      ([] ++ title :: ([first] ++ ⟨none, "title", [], ⟨3, 3⟩, []⟩ :: [second])) := .repeats rfl
  exact (Relation.EqvGen.rel _ _ hsplit).trans _ _ _ (.rel _ _ hrepeat)

/-- A post with a page of its comments is shaped the same. -/
theorem mirrors_of_shape_blogPost :
    ∃ shaped, shape ⟨blog, fun _ => none⟩ "Post" blogPost blogSelection = .ok shaped ∧
      Mirrors ⟨blog, fun _ => none⟩ "Post" blogSelection blogPost shaped.value ∧
      shape ⟨blog, fun _ => none⟩ "Post" blogPost scatteredSelection = .ok shaped := by
  have hok : (shape ⟨blog, fun _ => none⟩ "Post" blogPost blogSelection).isOk = true := by
    decide +kernel
  obtain ⟨shaped, hshape⟩ := exists_ok_of_isOk hok
  obtain ⟨hmirrors, hreworded⟩ := mirrors_of_shape hshape
  exact ⟨shaped, hshape, hmirrors, hreworded _ rewordings_scatteredSelection⟩

end Shaper

end GraphProjection
