import GraphProjection.Projection.OfSelection
import Mathlib.Tactic.Lemma

/-!
# Selections and what they request

Requested fields are grouped twice: by response key when a value is shaped, by name when it is
projected.  This module holds what both sides need to know of a selection.

`FieldNode.Coherent` says that the fields that are answered under one key are one field, at every
depth; that is what makes the first grouping a refinement of the second.  `Registry.Requests`
relates a selection on a type to every field that it requests of a registered type, down through
relations and envelopes, and `Registry.FromStorage` says that none of them is computed outside of
the storage.

The rest is membership: what is in a group was in the list (`mem_grouped`, `mem_requested`), and
the items below several fields are the items below each of them (`mem_itemNodes_childrenOf`).
-/

namespace GraphProjection

namespace FieldNode

/-! ## Membership in groups -/

lemma mem_childrenOf {nodes : List FieldNode} {child : FieldNode} :
    child ∈ childrenOf nodes ↔ ∃ node ∈ nodes, child ∈ node.children :=
  List.mem_flatMap

lemma childrenOf_subset {some more : List FieldNode} (h : some ⊆ more) :
    childrenOf some ⊆ childrenOf more := by
  intro child hchild
  obtain ⟨node, hnode, hmem⟩ := mem_childrenOf.1 hchild
  exact mem_childrenOf.2 ⟨node, h hnode, hmem⟩

theorem mem_requested {nodes : List FieldNode} {name : String} {node : FieldNode} :
    node ∈ requested nodes name ↔ node ∈ nodes ∧ node.name = name ∧ node.name ≠ typename := by
  simp [requested]

lemma firsts_subset (nodes : List FieldNode) (seen : List String) :
    firsts nodes seen ⊆ nodes := by
  induction nodes generalizing seen with
  | nil => exact List.Subset.refl _
  | cons node rest ih =>
    rw [firsts]
    split
    · exact List.subset_cons_of_subset node (ih seen)
    · exact List.cons_subset_cons node (ih _)

/-- A group has one of the fields at its head and below it the children of all those that share
its key. -/
theorem mem_grouped {nodes : List FieldNode} {r : ResponseField} (h : r ∈ grouped nodes) :
    r.node ∈ nodes ∧
      r.children = childrenOf (nodes.filter (·.responseKey == r.node.responseKey)) := by
  obtain ⟨first, hfirst, rfl⟩ := List.mem_map.1 h
  exact ⟨firsts_subset nodes [] hfirst, rfl⟩

/-- Where fields of one key have one name, what is asked for under a key is asked for below the
fields of the name, in any selection that holds these. -/
theorem children_subset_requested {selected nodes : List FieldNode}
    (hnames : ∀ a ∈ selected, ∀ b ∈ selected, a.responseKey = b.responseKey → a.name = b.name)
    {r : ResponseField} (hr : r ∈ grouped selected) (hsubset : selected ⊆ nodes)
    (htypename : r.node.name ≠ typename) :
    r.children ⊆ childrenOf (requested nodes r.node.name) := by
  obtain ⟨hnode, hchildren⟩ := mem_grouped hr
  rw [hchildren]
  refine childrenOf_subset fun a ha => ?_
  simp only [List.mem_filter, beq_iff_eq] at ha
  have hname : a.name = r.node.name := hnames a ha.1 r.node hnode ha.2
  exact mem_requested.2 ⟨hsubset ha.1, hname, hname ▸ htypename⟩

/-! ## Items of envelopes -/

/-- The items of envelopes are what is requested of their `data`. -/
lemma envelopeItems_eq (nodes : List FieldNode) :
    envelopeItems nodes = childrenOf (requested nodes "data") := by
  refine congrArg childrenOf (List.filter_congr fun node _ => ?_)
  by_cases h : node.name = "data" <;> simp [h, typename]

lemma mem_itemNodes {envelope : Option (PageKind × String)} {nodes : List FieldNode}
    {item : FieldNode} :
    item ∈ Projector.itemNodes envelope nodes ↔
      (envelope = none ∧ item ∈ nodes) ∨
        (envelope.isSome = true ∧ ∃ node ∈ nodes, node.name = "data" ∧ item ∈ node.children) := by
  cases envelope with
  | none => simp [Projector.itemNodes]
  | some pair => simp [Projector.itemNodes, envelopeItems, mem_childrenOf, and_assoc]

lemma itemNodes_subset {envelope : Option (PageKind × String)} {some more : List FieldNode}
    (h : some ⊆ more) :
    Projector.itemNodes envelope some ⊆ Projector.itemNodes envelope more := by
  intro item hitem
  rw [mem_itemNodes] at hitem ⊢
  rcases hitem with ⟨he, hmem⟩ | ⟨he, node, hnode, hdata⟩
  · exact .inl ⟨he, h hmem⟩
  · exact .inr ⟨he, node, h hnode, hdata⟩

theorem mem_itemNodes_childrenOf {envelope : Option (PageKind × String)}
    {group : List FieldNode} {item : FieldNode} :
    item ∈ Projector.itemNodes envelope (childrenOf group) ↔
      ∃ node ∈ group, item ∈ Projector.itemNodes envelope node.children := by
  simp only [mem_itemNodes, mem_childrenOf]
  constructor
  · rintro (⟨he, node, hnode, hmem⟩ | ⟨he, child, ⟨node, hnode, hchild⟩, hdata⟩)
    · exact ⟨node, hnode, .inl ⟨he, hmem⟩⟩
    · exact ⟨node, hnode, .inr ⟨he, child, hchild, hdata⟩⟩
  · rintro ⟨node, hnode, (⟨he, hmem⟩ | ⟨he, child, hchild, hdata⟩)⟩
    · exact .inl ⟨he, node, hnode, hmem⟩
    · exact .inr ⟨he, child, ⟨node, hnode, hchild⟩, hdata⟩

/-! ## Fields at any depth -/

/-- A field is among others or somewhere below them. -/
inductive Occurs : List FieldNode → FieldNode → Prop
  | here {nodes node} (h : node ∈ nodes) : Occurs nodes node
  | under {nodes node deep} (h : node ∈ nodes) (hd : Occurs node.children deep) :
      Occurs nodes deep

lemma Occurs.mono {some more : List FieldNode} {node : FieldNode} (h : Occurs some node)
    (hs : some ⊆ more) : Occurs more node := by
  cases h with
  | here hn => exact .here (hs hn)
  | under hn hd => exact .under (hs hn) hd

lemma Occurs.of_childrenOf {nodes : List FieldNode} {node : FieldNode}
    (h : Occurs (childrenOf nodes) node) : Occurs nodes node := by
  cases h with
  | here hn =>
    obtain ⟨parent, hp, hc⟩ := mem_childrenOf.1 hn
    exact .under hp (.here hc)
  | under hn hd =>
    obtain ⟨parent, hp, hc⟩ := mem_childrenOf.1 hn
    exact .under hp (.under hc hd)

lemma Occurs.of_itemNodes {envelope : Option (PageKind × String)} {nodes : List FieldNode}
    {node : FieldNode} (h : Occurs (Projector.itemNodes envelope nodes) node) :
    Occurs nodes node := by
  cases envelope with
  | none => exact h
  | some pair => exact (h.of_childrenOf).mono List.filter_sublist.subset

mutual

/-- A field and all the fields below it. -/
def everyFrom : FieldNode → List FieldNode
  | ⟨key, name, arguments, location, children⟩ =>
    ⟨key, name, arguments, location, children⟩ :: everyIn children

/-- All fields of a selection, at any depth. -/
def everyIn : List FieldNode → List FieldNode
  | [] => []
  | node :: rest => everyFrom node ++ everyIn rest

end

lemma mem_everyFrom {node deep : FieldNode} :
    deep ∈ everyFrom node ↔ deep = node ∨ deep ∈ everyIn node.children := by
  cases node
  rw [everyFrom, List.mem_cons]

lemma mem_everyIn {nodes : List FieldNode} {deep : FieldNode} :
    deep ∈ everyIn nodes ↔ ∃ node ∈ nodes, deep ∈ everyFrom node := by
  induction nodes with
  | nil => simp [everyIn]
  | cons node rest ih => simp [everyIn, ih]

lemma Occurs.mem_everyIn {nodes : List FieldNode} {node : FieldNode}
    (h : Occurs nodes node) : node ∈ everyIn nodes := by
  induction h with
  | here hn => exact FieldNode.mem_everyIn.2 ⟨_, hn, mem_everyFrom.2 (.inl rfl)⟩
  | under hn _ ih => exact FieldNode.mem_everyIn.2 ⟨_, hn, mem_everyFrom.2 (.inr ih)⟩

/-- The arguments of all fields of a selection, at any depth, meet a condition. -/
def ArgumentsMeet (P : Arguments → Prop) (nodes : List FieldNode) : Prop :=
  ∀ node, Occurs nodes node → P node.arguments

/-- What is asked for below fields of a selection is part of it. -/
lemma ArgumentsMeet.childrenOf {P : Arguments → Prop} {nodes more : List FieldNode}
    (h : ArgumentsMeet P nodes) (hsubset : more ⊆ nodes) : ArgumentsMeet P (childrenOf more) :=
  fun node hnode => h node (hnode.of_childrenOf.mono hsubset)

/-- What is asked for under a key of the response are fields of the selection. -/
lemma ArgumentsMeet.children {P : Arguments → Prop} {nodes : List FieldNode}
    (h : ArgumentsMeet P nodes) {r : ResponseField} (hr : r ∈ grouped nodes) :
    ArgumentsMeet P r.children := by
  rw [(mem_grouped hr).2]
  exact h.childrenOf List.filter_sublist.subset

/-- No field has two arguments of one name, at any depth: arguments are maps. -/
def ArgumentsDistinct (nodes : List FieldNode) : Prop :=
  ∀ node, Occurs nodes node → (Entries.names node.arguments).Nodup

lemma ArgumentsDistinct.of_everyIn {nodes : List FieldNode}
    (h : ∀ node ∈ everyIn nodes, (Entries.names node.arguments).Nodup) :
    ArgumentsDistinct nodes :=
  fun node hnode => h node hnode.mem_everyIn

lemma ArgumentsDistinct.childrenOf {nodes more : List FieldNode} (h : ArgumentsDistinct nodes)
    (hsubset : more ⊆ nodes) : ArgumentsDistinct (childrenOf more) :=
  ArgumentsMeet.childrenOf (P := fun arguments => (Entries.names arguments).Nodup) h hsubset

lemma ArgumentsDistinct.children {nodes : List FieldNode} (h : ArgumentsDistinct nodes)
    {r : ResponseField} (hr : r ∈ grouped nodes) : ArgumentsDistinct r.children :=
  ArgumentsMeet.children (P := fun arguments => (Entries.names arguments).Nodup) h hr

/-- Fields that share a response key ask for the same field, at every depth. -/
inductive Coherent : List FieldNode → Prop
  | intro {nodes : List FieldNode}
      (names : ∀ a ∈ nodes, ∀ b ∈ nodes, a.responseKey = b.responseKey → a.name = b.name)
      (groups : ∀ a ∈ nodes,
        Coherent (childrenOf (nodes.filter (·.responseKey == a.responseKey)))) :
      Coherent nodes

lemma Coherent.names {nodes : List FieldNode} (h : Coherent nodes) :
    ∀ a ∈ nodes, ∀ b ∈ nodes, a.responseKey = b.responseKey → a.name = b.name := by
  cases h with
  | intro names _ => exact names

lemma Coherent.children {nodes : List FieldNode} (h : Coherent nodes) {r : ResponseField}
    (hr : r ∈ grouped nodes) : Coherent r.children := by
  obtain ⟨hnode, hchildren⟩ := mem_grouped hr
  cases h with
  | intro _ groups =>
    rw [hchildren]
    exact groups r.node hnode

/-- Whether a selection is coherent down to a depth, with nothing left below. -/
def coherentTo : Nat → List FieldNode → Bool
  | 0, nodes => nodes.isEmpty
  | n + 1, nodes =>
    nodes.all fun a =>
      nodes.all (fun b => a.responseKey != b.responseKey || a.name == b.name) &&
        coherentTo n (childrenOf (nodes.filter (·.responseKey == a.responseKey)))

lemma Coherent.of_coherentTo {n : Nat} {nodes : List FieldNode}
    (h : coherentTo n nodes = true) : Coherent nodes := by
  induction n generalizing nodes with
  | zero =>
    rw [coherentTo, List.isEmpty_iff] at h
    subst h
    exact .intro (fun a ha => absurd ha List.not_mem_nil) fun a ha => absurd ha List.not_mem_nil
  | succ n ih =>
    rw [coherentTo, List.all_eq_true] at h
    refine .intro (fun a ha b hb hkey => ?_) fun a ha => ?_
    · have hnames := (Bool.and_eq_true _ _ ▸ h a ha).1
      have hb := List.all_eq_true.1 hnames b hb
      simpa [hkey] using hb
    · exact ih (Bool.and_eq_true _ _ ▸ h a ha).2

end FieldNode

/-! ## What is requested of registered types -/

/-- Whether a field has its value from the storage: it is not marked as not selectable, and has no
resolver of its own. -/
def FieldDescriptor.isStored (f : FieldDescriptor) : Bool :=
  match f.kind with
  | .notSelectable => false
  | _ => f.resolver.isNone

lemma FieldDescriptor.isStored_iff {f : FieldDescriptor} :
    f.isStored = true ↔ f.resolver = none ∧ f.kind ≠ .notSelectable := by
  unfold isStored
  split
  · next hkind => simp [hkind]
  · next hkind => simpa using fun _ => hkind

namespace Registry

open FieldNode Projector

/-- A selection on a type requests a field of a registered type: of the type itself or of the
items of its envelope, or of a type that one of its relations leads to. -/
inductive Requests (r : Registry) : String → List FieldNode → OutputType → FieldNode → Prop
  | here {type nodes t node}
      (ht : r.describe (itemType (r.envelope? type) type) = .ok (some t))
      (hn : node ∈ itemNodes (r.envelope? type) nodes) : Requests r type nodes t node
  | under {type nodes t node f relation t' deep}
      (ht : r.describe (itemType (r.envelope? type) type) = .ok (some t))
      (hn : node ∈ itemNodes (r.envelope? type) nodes) (hname : node.name ≠ typename)
      (hf : t.field? node.name = some f) (hk : f.kind = .relation relation)
      (hd : Requests r f.type.namedType node.children t' deep) : Requests r type nodes t' deep

/-- Every field that a selection requests has its value from the storage: none is marked as not
selectable, and none has a resolver of its own. -/
def FromStorage (r : Registry) (type : String) (nodes : List FieldNode) : Prop :=
  ∀ t node f, r.Requests type nodes t node → node.name ≠ typename →
    t.field? node.name = some f → f.resolver = none ∧ f.kind ≠ .notSelectable

lemma Requests.described {r : Registry} {type : String} {nodes : List FieldNode}
    {t : OutputType} {node : FieldNode} (h : r.Requests type nodes t node) :
    ∃ name, r.describe name = .ok (some t) := by
  induction h with
  | here ht _ => exact ⟨_, ht⟩
  | under _ _ _ _ _ _ ih => exact ih

lemma FromStorage.below {r : Registry} {type : String} {nodes : List FieldNode}
    (h : r.FromStorage type nodes) {t : OutputType} {node : FieldNode} {f : FieldDescriptor}
    {relation : RelationDescriptor}
    (ht : r.describe (itemType (r.envelope? type) type) = .ok (some t))
    (hn : node ∈ itemNodes (r.envelope? type) nodes) (hname : node.name ≠ typename)
    (hf : t.field? node.name = some f) (hk : f.kind = .relation relation) :
    r.FromStorage f.type.namedType node.children :=
  fun t' deep f' hd => h t' deep f' (.under ht hn hname hf hk hd)

lemma FromStorage.of_forall {r : Registry} {type : String} {group : List FieldNode}
    (h : ∀ node ∈ group, r.FromStorage type node.children) :
    r.FromStorage type (childrenOf group) := by
  intro t deep f hd
  cases hd with
  | here ht hn =>
    obtain ⟨node, hnode, hitem⟩ := mem_itemNodes_childrenOf.1 hn
    exact h node hnode t deep f (.here ht hitem)
  | under ht hn hname hf hk hd =>
    obtain ⟨node, hnode, hitem⟩ := mem_itemNodes_childrenOf.1 hn
    exact h node hnode t deep f (.under ht hitem hname hf hk hd)

end Registry

end GraphProjection
