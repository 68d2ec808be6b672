import GraphProjection.FieldNode
import GraphProjection.Projection
import GraphProjection.Registry

/-!
# The projection of a selection

A type's fields are gone through in the order in which they are declared.  A column that is
always selected is taken first of all; a field that was requested then adds what it needs,
unless its privacy rule denies it; a relation that was not requested may still be forced by the
policy for always-selected columns.

What is requested of a field is what all selected fields of its name request together, and they
have to agree on their arguments.  The relations go down the selection: the children of a field
lie below the field (`FieldNode.depths_childrenOf_lt`), so the projection of any selection ends,
however the types refer to each other.
-/

namespace GraphProjection

/-- Why a selection has no projection. -/
inductive ProjectionError where
  | unknownField (type field : String)
  | conflictingArguments (type field : String)
  | registry (error : RegistryError)
deriving DecidableEq, Repr

namespace ProjectionError

/-- What is said of the error. -/
def message : ProjectionError → String
  | .unknownField type field => "Cannot query field '" ++ field ++ "' on type '" ++ type ++ "'"
  | .conflictingArguments type field =>
    "Field '" ++ type ++ "." ++ field ++ "' is requested several times with different arguments"
  | .registry e => e.message

end ProjectionError

/-! ## What is requested -/

/-- The selected fields of a name; the name of every type's own name is none of its fields. -/
def FieldNode.requested (nodes : List FieldNode) (name : String) : List FieldNode :=
  nodes.filter fun node => node.name == name && node.name != typename

/-- The children of the `data` fields, which are the fields of an envelope's items. -/
def FieldNode.envelopeItems (nodes : List FieldNode) : List FieldNode :=
  childrenOf (nodes.filter (·.name == "data"))

namespace FieldNode

theorem requested_subset (nodes : List FieldNode) (name : String) : requested nodes name ⊆ nodes :=
  (List.filter_sublist).subset

theorem depths_envelopeItems_le (nodes : List FieldNode) :
    depths (envelopeItems nodes) ≤ depths nodes := by
  unfold envelopeItems
  cases h : nodes.filter (·.name == "data") with
  | nil => simp [childrenOf, depths]
  | cons first rest =>
    rw [← h]
    exact Nat.le_of_lt (depths_childrenOf_lt List.filter_sublist.subset (by simp [h]))

end FieldNode

/-- Checks that fields are declared and that fields of one name agree on their arguments, given
the fields checked before. -/
def OutputType.checkFields (t : OutputType) :
    List FieldNode → List FieldNode → Except ProjectionError Unit
  | [], _ => .ok ()
  | node :: rest, earlier =>
    if node.name = FieldNode.typename then t.checkFields rest earlier
    else if (t.field? node.name).isNone then .error (.unknownField t.name node.name)
    else
      match earlier.find? (·.name == node.name) with
      | some first =>
        if Value.sameArguments first.arguments node.arguments then t.checkFields rest earlier
        else .error (.conflictingArguments t.name node.name)
      | none => t.checkFields rest (earlier ++ [node])

/-- Checks that the fields of an envelope are fields of its kind. -/
def PageKind.checkFields (kind : PageKind) (type : String) :
    List FieldNode → Except ProjectionError Unit
  | [] => .ok ()
  | node :: rest =>
    if node.name = FieldNode.typename ∨ kind.hasField node.name = true then
      kind.checkFields type rest
    else .error (.unknownField type node.name)

/-- What a projection depends on beside the selection. -/
structure Projector where
  registry : Registry
  services : ServiceLocator

namespace Projector

/-! ## Single fields -/

/-- An envelope that a type's name stands for, or none, and the fields requested of the type of
the items. -/
def itemNodes (envelope : Option (PageKind × String)) (nodes : List FieldNode) : List FieldNode :=
  match envelope with
  | some _ => FieldNode.envelopeItems nodes
  | none => nodes

/-- The type of the items, which is the type itself where there is no envelope. -/
def itemType (envelope : Option (PageKind × String)) (type : String) : String :=
  match envelope with
  | some (_, item) => item
  | none => type

/-- Checks the fields of an envelope, if there is one. -/
def checkEnvelope (envelope : Option (PageKind × String)) (type : String)
    (nodes : List FieldNode) : Except ProjectionError Unit :=
  match envelope with
  | some (kind, _) => kind.checkFields type nodes
  | none => .ok ()

theorem depths_itemNodes_le (envelope : Option (PageKind × String)) (nodes : List FieldNode) :
    FieldNode.depths (itemNodes envelope nodes) ≤ FieldNode.depths nodes := by
  unfold itemNodes
  split
  · exact FieldNode.depths_envelopeItems_le nodes
  · exact Nat.le_refl _

/-- The entry of a relation in a projection. -/
def relationEntry (f : FieldDescriptor) (r : RelationDescriptor) (target : OutputType)
    (envelope : Option (PageKind × String)) (arguments : Arguments) : RelationEntry where
  target := ⟨f.name, r.name, target.table, r.localKey, r.foreignKey,
    f.type.isList || envelope.isSome⟩
  targetType := target.name
  page := envelope.map (·.1)
  arguments := arguments
  constraint := r.constraint

/-- The text of an expression, unless its parameters cannot be bound. -/
def expressionText? (x : Projector) (e : Expression) (arguments : Arguments) : Option String :=
  match e with
  | .raw sql => some sql
  | .callback parameters build =>
    match bind parameters arguments x.services with
    | .ok bound => some (build bound)
    | .error _ => none

/-- Adds the column of a field that is always selected. -/
def addAlways (t : OutputType) (f : FieldDescriptor) (p : Projection) : Projection :=
  match f.column? with
  | some column => if f.always then p.addColumn (t.qualify column) else p
  | none => p

/-- The projection of a relation that is forced: the always-selected columns of its target and
the column that matches the parent. -/
def forcedProjection (target : OutputType) (r : RelationDescriptor) : Projection :=
  ((Projection.ofTable target.table).addColumns target.alwaysColumns).addColumn
    (target.qualify r.foreignKey)

/-- What a field adds that was not requested.  A forced relation forces no further ones. -/
def addForced (x : Projector) (t : OutputType) (f : FieldDescriptor) (p : Projection) :
    Except ProjectionError Projection :=
  match f.kind with
  | .relation r =>
    if x.registry.settings.alwaysSelect = .eagerLoadRelations then
      let envelope := x.registry.envelope? f.type.namedType
      match x.registry.expect (itemType envelope f.type.namedType) with
      | .error e => .error (.registry e)
      | .ok target =>
        if target.hasAlwaysColumns then
          .ok ((p.addColumn (t.qualify r.localKey)).addRelation
            (relationEntry f r target envelope []) (forcedProjection target r))
        else .ok p
    else .ok p
  | _ => .ok p

/-- What a requested relation adds; `project` is the projection of the fields below. -/
def addRelation (x : Projector) (t : OutputType) (f : FieldDescriptor) (r : RelationDescriptor)
    (arguments : Arguments) (inner : List FieldNode)
    (project : OutputType → (below : List FieldNode) →
      FieldNode.depths below ≤ FieldNode.depths inner → Except ProjectionError Projection)
    (p : Projection) : Except ProjectionError Projection :=
  let envelope := x.registry.envelope? f.type.namedType
  match checkEnvelope envelope f.type.namedType inner with
  | .error e => .error e
  | .ok () =>
    match x.registry.expect (itemType envelope f.type.namedType) with
    | .error e => .error (.registry e)
    | .ok target =>
      match project target (itemNodes envelope inner) (depths_itemNodes_le envelope inner) with
      | .error e => .error e
      | .ok child =>
        .ok ((p.addColumn (t.qualify r.localKey)).addRelation
          (relationEntry f r target envelope arguments)
          (child.addColumn (target.qualify r.foreignKey)))

/-- What a field adds; `project` is the projection of the fields below. -/
def addField (x : Projector) (t : OutputType) (nodes : List FieldNode)
    (project : OutputType → (below : List FieldNode) →
      FieldNode.depths below < FieldNode.depths nodes → Except ProjectionError Projection)
    (p : Projection) (f : FieldDescriptor) : Except ProjectionError Projection :=
  let p := addAlways t f p
  match h : FieldNode.requested nodes f.name with
  | [] => x.addForced t f p
  | first :: rest =>
    if f.allows first.arguments x.services then
      match f.kind with
      | .column column => .ok (p.addColumn (t.qualify column))
      | .computed outputAlias expression =>
        match x.expressionText? expression first.arguments with
        | some sql => .ok (p.addExpression sql outputAlias)
        | none => .ok p
      | .relation r =>
        have hlt : FieldNode.depths (FieldNode.childrenOf (first :: rest)) <
            FieldNode.depths nodes :=
          FieldNode.depths_childrenOf_lt (h ▸ FieldNode.requested_subset nodes f.name) (by simp)
        x.addRelation t f r first.arguments (FieldNode.childrenOf (first :: rest))
          (fun target below hle => project target below (Nat.lt_of_le_of_lt hle hlt)) p
      | .notSelectable => .ok p
    else .ok p

/-! ## Whole selections -/

/-- The projection of fields of a type. -/
def projectType (x : Projector) (t : OutputType) (nodes : List FieldNode) :
    Except ProjectionError Projection :=
  match t.checkFields nodes [] with
  | .error e => .error e
  | .ok () =>
    t.fields.foldlM
      (x.addField t nodes fun target below _ => projectType x target below)
      (Projection.ofTable t.table)
termination_by FieldNode.depths nodes

/-- The projection of a selection on a type, or on an envelope of one.  A type that is not
registered is fetched whole. -/
def project (x : Projector) (type : String) (nodes : List FieldNode) :
    Except ProjectionError Projection :=
  let envelope := x.registry.envelope? type
  match checkEnvelope envelope type nodes with
  | .error e => .error e
  | .ok () =>
    match x.registry.describe (itemType envelope type) with
    | .error e => .error (.registry e)
    | .ok none => .ok (Projection.ofTable none)
    | .ok (some t) => x.projectType t (itemNodes envelope nodes)

end Projector

end GraphProjection
