import GraphProjection.Registry

/-!
# Schemas

A schema puts root fields on top of a registry.  A root field answers from one table: its
arguments filter the rows, its parameters are bound before anything is fetched, and its hook
narrows the query with what was bound.  The strategy decides whether the query is narrowed to
what was requested or left with every column.
-/

namespace GraphProjection

/-- How many columns a root field fetches. -/
inductive Strategy where
  | allColumns
  | selectFields
deriving DecidableEq, Repr

namespace Strategy

/-- The strategies. -/
def all : List Strategy := [.allColumns, .selectFields]

/-- The name of a strategy. -/
def name : Strategy → String
  | .allColumns => "all_columns"
  | .selectFields => "select_fields"

/-- The strategy of a name. -/
def ofName? (s : String) : Option Strategy := all.find? (·.name == s)

end Strategy

/-- How a query is narrowed with bound parameters. -/
abbrev QueryHook := Bindings → List Edit

/-- The declaration of a root field.  A filter is an argument and the column that it selects. -/
structure RootDeclaration where
  name : String
  type : String
  table : String
  filters : List (String × String) := []
  strategy : Strategy := .selectFields
  parameters : List Parameter := []
  hook : Option QueryHook := none

/-- A root field: its declaration, and its type as it was read. -/
structure RootField where
  declaration : RootDeclaration
  type : TypeRef

/-- What can be wrong with root fields. -/
inductive SchemaError where
  | duplicateField (field : String)
  | invalidType (field : String) (source : InvalidTypeRef)
deriving DecidableEq, Repr

namespace SchemaError

/-- What is said of the error. -/
def message : SchemaError → String
  | .duplicateField field => "Root field '" ++ field ++ "' is declared more than once"
  | .invalidType field source =>
    "Root field '" ++ field ++ "' has an invalid type: " ++ source.message

end SchemaError

/-- Root fields on top of a registry, with the services of every request. -/
structure Schema where
  registry : Registry
  services : ServiceLocator
  fields : List RootField

namespace Schema

/-- The name of the root type. -/
def queryType : String := "Query"

/-- The root fields of declarations, behind those that are there. -/
def readFields : List RootDeclaration → List RootField → Except SchemaError (List RootField)
  | [], known => .ok known
  | d :: rest, known =>
    match TypeRef.parse d.type with
    | .error source => .error (.invalidType d.name source)
    | .ok type =>
      if known.any (·.declaration.name == d.name) then .error (.duplicateField d.name)
      else readFields rest (known ++ [⟨d, type⟩])

/-- The schema of root fields. -/
def build (registry : Registry) (services : ServiceLocator) (fields : List RootDeclaration) :
    Except SchemaError Schema :=
  match readFields fields [] with
  | .error e => .error e
  | .ok fields => .ok ⟨registry, services, fields⟩

/-- The root field of a name. -/
def field? (s : Schema) (name : String) : Option RootField :=
  s.fields.find? (·.declaration.name == name)

/-- The named type that a field leads to: of the root type a root field's, else what the registry
knows. -/
def targetType? (s : Schema) (parent field : String) : Option String :=
  if parent = queryType then (s.field? field).map (·.type.namedType)
  else s.registry.targetType? parent field

end Schema

end GraphProjection
