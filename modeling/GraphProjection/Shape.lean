import GraphProjection.FieldNode
import GraphProjection.Registry
import GraphProjection.Value.Text

/-!
# Shaping rows into a response

Shaping goes down the fetched value along the requested fields.  Null stays null, a list is shaped
item by item, an object becomes an object with the response keys.  What an object is depends on
its type: an envelope, a row of a registered type, or, where the type is not registered, data
that is read by the names of the fields.

Two things can go wrong with a field.  An expression whose parameters are not bound leaves null
and a field error, which says where in the shaped value the null stands.  A field that the type
does not have, and a value that is no object where one is needed, fail the whole value.

The recursion is on the fetched value: `shapeMembers` offers every member of an object ready to be
shaped as any type, and the fields pick from it.
-/

namespace GraphProjection

/-- A step into a value. -/
inductive PathSegment where
  | key (name : String)
  | index (n : Nat)
deriving DecidableEq, Repr

/-- Why a value cannot be shaped. -/
inductive ShapeError where
  | unknownField (type field : String)
  | expectedObject (type : String)
  | registry (error : RegistryError)
deriving DecidableEq, Repr

namespace ShapeError

/-- What is said of the error. -/
def message : ShapeError → String
  | .unknownField type field => "Cannot query field '" ++ field ++ "' on type '" ++ type ++ "'"
  | .expectedObject type => "Expected an object for type '" ++ type ++ "'"
  | .registry e => e.message

end ShapeError

/-- A field that is null because of an error; the path leads to it from the shaped value. -/
structure FieldError where
  path : List PathSegment
  location : Location
  error : BindError
deriving DecidableEq, Repr

namespace FieldError

/-- The error as it is seen from one step further up. -/
def under (segment : PathSegment) (e : FieldError) : FieldError :=
  { e with path := segment :: e.path }

end FieldError

/-- A shaped value and the errors of its fields. -/
structure Shaped where
  value : Value
  errors : List FieldError
deriving DecidableEq

namespace Shaped

/-- A value without errors. -/
def pure (value : Value) : Shaped := ⟨value, []⟩

end Shaped

/-- What shaping may end in. -/
abbrev ShapeResult := Except ShapeError Shaped

/-! ## Identifiers -/

mutual

/-- A value of the type `ID`: its numbers as text, in lists at any depth. -/
def Value.idText : Value → Value
  | .int n => .string (Value.int n).text
  | .double d => .string (Value.double d).text
  | .array items => .array (Value.idTexts items)
  | v => v

/-- Values of the type `ID`. -/
def Value.idTexts : List Value → List Value
  | [] => []
  | v :: rest => v.idText :: Value.idTexts rest

end

/-! ## Data without a registered type -/

mutual

/-- Data read by the names of the fields.  Where no field is asked for, it stands as it is. -/
def Value.readBy : Value → String → List FieldNode → Value
  | .array items, type, nodes => .array (Value.readItemsBy items type nodes)
  | .object members, type, nodes =>
    if nodes.isEmpty then .object members
    else
      let below := Value.readMembersBy members
      .object ((FieldNode.grouped nodes).map fun r =>
        (r.key,
          if r.node.name = FieldNode.typename then .string type
          else
            match Entries.get? below r.node.name with
            | some read => read r.node.name r.children
            | none => .null))
  | v, _, _ => v

/-- The items of a list, each read by the names of the fields. -/
def Value.readItemsBy : List Value → String → List FieldNode → List Value
  | [], _, _ => []
  | v :: rest, type, nodes => v.readBy type nodes :: Value.readItemsBy rest type nodes

/-- The members of an object, each ready to be read. -/
def Value.readMembersBy :
    List (String × Value) → List (String × (String → List FieldNode → Value))
  | [] => []
  | (name, v) :: rest => (name, fun type nodes => v.readBy type nodes) :: Value.readMembersBy rest

end

/-- What shaping depends on beside the value and the fields. -/
structure Shaper where
  registry : Registry
  services : ServiceLocator

namespace Shaper

/-- The members of an object, each ready to be shaped as a type. -/
abbrev Below := Entries (String → List FieldNode → ShapeResult)

/-- A member shaped as a type; a member that is missing is null. -/
def shapeMember (below : Below) (name type : String) (nodes : List FieldNode) : ShapeResult :=
  match below.get? name with
  | some shape => shape type nodes
  | none => .ok (.pure .null)

/-! ## Fields -/

/-- A value of a field, as text where it is an identifier. -/
def leaf (f : FieldDescriptor) (value : Option Value) : Shaped :=
  .pure (if f.type.isId then (Value.orNull value).idText else Value.orNull value)

/-- Why the parameters of an expression cannot be bound, if they cannot. -/
def bindFault? (x : Shaper) (e : Expression) (arguments : Arguments) : Option BindError :=
  match e with
  | .raw _ => none
  | .callback parameters _ =>
    match bind parameters arguments x.services with
    | .ok _ => none
    | .error fault => some fault

/-- The value of a field of a row. -/
def fieldValue (x : Shaper) (f : FieldDescriptor) (row : Row) (below : Below) (r : ResponseField) :
    ShapeResult :=
  if !f.allows r.node.arguments x.services then .ok (.pure .null)
  else
    match f.resolver with
    | some resolver => .ok (.pure (resolver row r.node.arguments))
    | none =>
      match f.kind with
      | .column column => .ok (leaf f (row.get? column))
      | .computed outputAlias e =>
        match x.bindFault? e r.node.arguments with
        | some fault => .ok ⟨.null, [⟨[], r.node.location, fault⟩]⟩
        | none => .ok (leaf f (row.get? outputAlias))
      | .relation _ => shapeMember below f.name f.type.namedType r.children
      | .notSelectable => .ok (leaf f (row.get? f.name))

/-- The fields of an object, one after the other. -/
def shapeFields (shape : ResponseField → ShapeResult) :
    List ResponseField → Except ShapeError (Row × List FieldError)
  | [] => .ok ([], [])
  | r :: rest =>
    match shape r with
    | .error e => .error e
    | .ok shaped =>
      match shapeFields shape rest with
      | .error e => .error e
      | .ok (members, errors) =>
        .ok ((r.key, shaped.value) :: members,
          shaped.errors.map (.under (.key r.key)) ++ errors)

/-- An object with the response keys of some fields. -/
def shapeObject (shape : ResponseField → ShapeResult) (nodes : List FieldNode) : ShapeResult :=
  match shapeFields shape (FieldNode.grouped nodes) with
  | .error e => .error e
  | .ok (members, errors) => .ok ⟨.object members, errors⟩

/-- A field of a row of a registered type. -/
def rowField (x : Shaper) (t : OutputType) (row : Row) (below : Below) (r : ResponseField) :
    ShapeResult :=
  if r.node.name = FieldNode.typename then .ok (.pure (.string t.name))
  else
    match t.field? r.node.name with
    | none => .error (.unknownField t.name r.node.name)
    | some f => x.fieldValue f row below r

/-- A field of an envelope. -/
def envelopeField (type : String) (kind : PageKind) (item : String) (envelope : Row)
    (below : Below) (r : ResponseField) : ShapeResult :=
  if r.node.name = FieldNode.typename then .ok (.pure (.string type))
  else if r.node.name = "data" then shapeMember below "data" item r.children
  else if kind.hasField r.node.name then .ok (.pure (Value.orNull (envelope.get? r.node.name)))
  else .error (.unknownField type r.node.name)

/-! ## Values -/

/-- An object, whose members are ready to be shaped. -/
def shapeMembersAs (x : Shaper) (members : Row) (below : Below) (type : String)
    (nodes : List FieldNode) : ShapeResult :=
  match x.registry.envelope? type with
  | some (kind, item) => shapeObject (envelopeField type kind item members below) nodes
  | none =>
    match x.registry.describe type with
    | .error e => .error (.registry e)
    | .ok (some t) => shapeObject (x.rowField t members below) nodes
    | .ok none => .ok (.pure ((Value.object members).readBy type nodes))

mutual

/-- A value shaped as a type. -/
def shapeValue (x : Shaper) : Value → String → List FieldNode → ShapeResult
  | .null, _, _ => .ok (.pure .null)
  | .array items, type, nodes =>
    match shapeItems x items 0 type nodes with
    | .error e => .error e
    | .ok (values, errors) => .ok ⟨.array values, errors⟩
  | .object members, type, nodes =>
    x.shapeMembersAs members (shapeMembers x members) type nodes
  | _, type, _ => .error (.expectedObject type)

/-- The items of a list from a position on, each shaped as a type. -/
def shapeItems (x : Shaper) : List Value → Nat → String → List FieldNode →
    Except ShapeError (List Value × List FieldError)
  | [], _, _, _ => .ok ([], [])
  | v :: rest, n, type, nodes =>
    match shapeValue x v type nodes with
    | .error e => .error e
    | .ok shaped =>
      match shapeItems x rest (n + 1) type nodes with
      | .error e => .error e
      | .ok (values, errors) =>
        .ok (shaped.value :: values, shaped.errors.map (.under (.index n)) ++ errors)

/-- The members of an object, each ready to be shaped. -/
def shapeMembers (x : Shaper) :
    List (String × Value) → List (String × (String → List FieldNode → ShapeResult))
  | [] => []
  | (name, v) :: rest => (name, fun type nodes => shapeValue x v type nodes) :: shapeMembers x rest

end

/-- The value of a type, shaped into the response to a selection. -/
def shape (x : Shaper) (type : String) (value : Value) (nodes : List FieldNode) : ShapeResult :=
  x.shapeValue value type nodes

theorem get?_shapeMembers (x : Shaper) (members : Row) (name : String) :
    Entries.get? (x.shapeMembers members) name =
      (members.get? name).map fun v type nodes => x.shapeValue v type nodes := by
  induction members with
  | nil => simp [shapeMembers, Entries.get?]
  | cons pair rest ih =>
    obtain ⟨key, v⟩ := pair
    by_cases h : key = name
    · simp [shapeMembers, Entries.get?, h]
    · simpa [shapeMembers, Entries.get?, h] using ih

end Shaper

end GraphProjection
