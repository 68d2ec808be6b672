import GraphProjection.Text.Location
import GraphProjection.Value

/-!
# Requested fields

What a request asks for, once its fragments have been spread and its variables replaced: a tree
of fields.  A field appears in the response under its key, which is its own name unless the
request gives it another.

Fields are grouped in two ways, by key for the response and by name for the projection, and in
both the children of a group are the children of its members one after the other.  The measure
`FieldNode.depths` bounds how deep a list of fields goes, so that whoever goes from a list to the
children of some of its members has gone down.
-/

namespace GraphProjection

/-- A requested field. -/
structure FieldNode where
  key : Option String
  name : String
  arguments : Arguments
  location : Location
  children : List FieldNode
deriving Repr

namespace FieldNode

/-- The name of the field that every type has: the type's own name. -/
def typename : String := "__typename"

/-- The key of the field in the response. -/
def responseKey (node : FieldNode) : String := node.key.getD node.name

mutual

/-- How many fields lie on the longest way down from a field, itself included. -/
def depth : FieldNode → Nat
  | ⟨_, _, _, _, children⟩ => depths children + 1

/-- The depth of the deepest of some fields. -/
def depths : List FieldNode → Nat
  | [] => 0
  | node :: rest => max node.depth (depths rest)

end

/-- The children of some fields, one after the other. -/
def childrenOf (nodes : List FieldNode) : List FieldNode := nodes.flatMap (·.children)

theorem depth_eq (node : FieldNode) : node.depth = depths node.children + 1 := by
  cases node
  rfl

theorem depth_le_depths {node : FieldNode} {nodes : List FieldNode} (h : node ∈ nodes) :
    node.depth ≤ depths nodes := by
  induction nodes with
  | nil => simp at h
  | cons first rest ih =>
    simp only [depths]
    rcases List.mem_cons.1 h with rfl | h
    · exact Nat.le_max_left _ _
    · exact Nat.le_trans (ih h) (Nat.le_max_right _ _)

theorem depths_le {nodes : List FieldNode} {n : Nat} (h : ∀ node ∈ nodes, node.depth ≤ n) :
    depths nodes ≤ n := by
  induction nodes with
  | nil => exact Nat.zero_le _
  | cons first rest ih =>
    simp only [depths]
    exact Nat.max_le.2
      ⟨h _ List.mem_cons_self, ih fun node hn => h node (List.mem_cons_of_mem _ hn)⟩

/-- The children of some of the fields of a list lie below the list. -/
theorem depths_childrenOf_lt {chosen nodes : List FieldNode} (h : chosen ⊆ nodes)
    (hne : chosen ≠ []) : depths (childrenOf chosen) < depths nodes := by
  obtain ⟨first, hfirst⟩ := List.exists_mem_of_ne_nil _ hne
  have hpos : 0 < depths nodes := by
    have := depth_le_depths (h hfirst)
    have := depth_eq first
    omega
  have : depths (childrenOf chosen) ≤ depths nodes - 1 := by
    refine depths_le fun child hc => ?_
    obtain ⟨node, hn, hcn⟩ := List.mem_flatMap.1 hc
    have h1 := depth_le_depths hcn
    have h2 := depth_eq node
    have h3 := depth_le_depths (h hn)
    omega
  omega

/-! ## Groups of one response key -/

/-- The fields whose key no earlier field has, nor any of the keys seen before. -/
def firsts : List FieldNode → List String → List FieldNode
  | [], _ => []
  | node :: rest, seen =>
    if seen.contains node.responseKey then firsts rest seen
    else node :: firsts rest (node.responseKey :: seen)

end FieldNode

/-- What is asked for under one key of the response: the first field of that key, and the children
of all the fields of that key. -/
structure ResponseField where
  node : FieldNode
  children : List FieldNode
deriving Repr

namespace ResponseField

/-- The key under which the field is answered. -/
def key (r : ResponseField) : String := r.node.responseKey

end ResponseField

/-- Fields grouped by response key, in the order in which the keys first appear. -/
def FieldNode.grouped (nodes : List FieldNode) : List ResponseField :=
  (firsts nodes []).map fun first =>
    ⟨first, childrenOf (nodes.filter (·.responseKey == first.responseKey))⟩

end GraphProjection
