import GraphProjection.Registry.Declaration
import GraphProjection.TypeRef

/-!
# Descriptors

A descriptor is a declaration that has been found to make sense: its type has been read, its kind
is settled, and every name that was left out has its default.
-/

namespace GraphProjection

/-- A relation: its name in storage, and the columns that match parents with related rows. -/
structure RelationDescriptor where
  name : String
  localKey : String
  foreignKey : String
  constraint : Option Constraint

/-- Where a field's value comes from. -/
inductive FieldKind where
  | column (column : String)
  | relation (relation : RelationDescriptor)
  | computed (outputAlias : String) (expression : Expression)
  | notSelectable

/-- A field of an output type. -/
structure FieldDescriptor where
  name : String
  type : TypeRef
  kind : FieldKind
  always : Bool
  privacy : Option Privacy
  resolver : Option Resolver

namespace FieldDescriptor

/-- The column of a field that reads one. -/
def column? (f : FieldDescriptor) : Option String :=
  match f.kind with
  | .column column => some column
  | _ => none

/-- The alias of a field that is computed. -/
def alias? (f : FieldDescriptor) : Option String :=
  match f.kind with
  | .computed outputAlias _ => some outputAlias
  | _ => none

/-- The relation of a field that is one. -/
def relation? (f : FieldDescriptor) : Option RelationDescriptor :=
  match f.kind with
  | .relation relation => some relation
  | _ => none

/-- Whether the privacy rule of a field, if it has one, lets it be seen. -/
def allows (f : FieldDescriptor) (arguments : Arguments) (services : ServiceLocator) : Bool :=
  match f.privacy with
  | some privacy => privacy arguments services
  | none => true

end FieldDescriptor

/-- An output type: its name, the table of its rows where it has one, its fields in the order in
which they are declared. -/
structure OutputType where
  name : String
  table : Option String
  fields : List FieldDescriptor

namespace OutputType

/-- The field of a name. -/
def field? (t : OutputType) (name : String) : Option FieldDescriptor :=
  t.fields.find? (·.name == name)

/-- A column with the table in front of it, where there is one. -/
def qualify (t : OutputType) (column : String) : String :=
  match t.table with
  | some table => table ++ "." ++ column
  | none => column

/-- Whether some field is selected even when nobody asks for it. -/
def hasAlwaysColumns (t : OutputType) : Bool := t.fields.any (·.always)

/-- The qualified columns that are always selected. -/
def alwaysColumns (t : OutputType) : List String :=
  (t.fields.filter (·.always)).filterMap fun f => f.column?.map t.qualify

end OutputType

end GraphProjection
