import GraphProjection.Binding
import GraphProjection.Query

/-!
# Declarations

An output type is declared by its fields, and a field by its type and by attributes that say
where its value comes from: a column, a relation to the rows of another type, an expression that
the storage computes, or nothing in storage at all.  The attributes are recorded as they are
given; whether they make sense together is decided when the declaration is resolved.

Four attributes are functions: a privacy rule, a resolver, the constraint of a relation and the
callback that builds an expression.
-/

namespace GraphProjection

/-- Whether a field may be seen, given its arguments and the services of the request. -/
abbrev Privacy := Arguments → ServiceLocator → Bool

/-- The value of a field, computed from its row and its arguments. -/
abbrev Resolver := Row → Arguments → Value

/-- How a relation's query is narrowed for the arguments of its field. -/
abbrev Constraint := Arguments → List Edit

/-- An expression of the storage: fixed, or built from bound parameters. -/
inductive Expression where
  | raw (sql : String)
  | callback (parameters : List Parameter) (build : Bindings → String)

/-- The declaration of a relation. -/
structure RelationDeclaration where
  name : Option String := none
  localKey : Option String := none
  foreignKey : Option String := none
  constraint : Option Constraint := none

/-- The declaration of a field. -/
structure FieldDeclaration where
  name : String
  type : String
  column : Option String := none
  always : Bool := false
  selectable : Bool := true
  expression : Option Expression := none
  outputAlias : Option String := none
  relation : Option RelationDeclaration := none
  privacy : Option Privacy := none
  resolver : Option Resolver := none

/-- The declaration of an output type. -/
structure TypeDeclaration where
  name : String
  table : Option String := none
  fields : List FieldDeclaration := []

end GraphProjection
