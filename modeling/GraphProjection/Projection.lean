import GraphProjection.Page.Kind
import GraphProjection.Registry.Declaration

/-!
# Projections

A projection says what a query has to fetch for a selection: columns, expressions under their
aliases, and relations, each with a projection of its own.  No column at all stands for every
column.

`Projection.edits` is what a projection does to a query, and `Projection.widened` the same
projection without its columns, at every depth.
-/

namespace GraphProjection

/-- A relation of a projection: what is loaded, the type of its rows, how they are paged, and the
arguments for the constraint that narrows its query. -/
structure RelationEntry where
  target : RelationTarget
  targetType : String
  page : Option PageKind
  arguments : Arguments
  constraint : Option Constraint

namespace RelationEntry

/-- What the constraint of a relation does to its query. -/
def constraintEdits (r : RelationEntry) : List Edit :=
  match r.constraint with
  | some constraint => constraint r.arguments
  | none => []

end RelationEntry

/-- What a query has to fetch for a selection. -/
structure Projection where
  table : Option String
  columns : List String
  expressions : List (String × String)
  relations : List (RelationEntry × Projection)

namespace Projection

/-- Nothing but the table. -/
def ofTable (table : Option String) : Projection := ⟨table, [], [], []⟩

/-- Whether every column is fetched. -/
def selectsAllColumns (p : Projection) : Bool := p.columns.isEmpty

/-- Adds a column, unless it is there. -/
def addColumn (p : Projection) (column : String) : Projection :=
  if p.columns.contains column then p else { p with columns := p.columns ++ [column] }

/-- Adds columns in order. -/
def addColumns (p : Projection) (columns : List String) : Projection :=
  columns.foldl addColumn p

/-- Adds an expression, unless its alias is taken. -/
def addExpression (p : Projection) (expression outputAlias : String) : Projection :=
  if p.expressions.any (·.2 == outputAlias) then p
  else { p with expressions := p.expressions ++ [(expression, outputAlias)] }

/-- Adds a relation. -/
def addRelation (p : Projection) (entry : RelationEntry) (child : Projection) : Projection :=
  { p with relations := p.relations ++ [(entry, child)] }

/-- The relation under a field. -/
def relation? (p : Projection) (field : String) : Option (RelationEntry × Projection) :=
  p.relations.find? (·.1.target.field == field)

/-! ## Widening -/

mutual

/-- The projection without its columns, at every depth. -/
def widened : Projection → Projection
  | ⟨table, _, expressions, relations⟩ => ⟨table, [], expressions, widenedRelations relations⟩

/-- The relations, each with its projection widened. -/
def widenedRelations : List (RelationEntry × Projection) → List (RelationEntry × Projection)
  | [] => []
  | (entry, child) :: rest => (entry, child.widened) :: widenedRelations rest

end

/-! ## Narrowing a query -/

mutual

/-- What the projection does to a query.  The constraint of a relation comes after the relation's
own projection. -/
def edits : Projection → List Edit
  | ⟨_, columns, expressions, relations⟩ =>
    (if columns.isEmpty then [] else [.select columns]) ++
      expressions.map (fun e => .selectRaw e.1 e.2) ++ relationEdits relations

/-- What the relations do to a query. -/
def relationEdits : List (RelationEntry × Projection) → List Edit
  | [] => []
  | (entry, child) :: rest =>
    .load entry.target (child.edits ++ entry.constraintEdits) :: relationEdits rest

end

/-- Narrows a query to what the projection fetches. -/
def applyTo (p : Projection) (query : SelectQuery) : SelectQuery := query.editAll p.edits

end Projection

end GraphProjection
