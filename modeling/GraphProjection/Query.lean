import GraphProjection.Value

/-!
# Select queries

A query selects columns and raw expressions of the rows of one table that meet its conditions,
within a limit and an offset.  The relations to load beside those rows hang on it as queries of
their own, so a query is a tree.

Whoever narrows a query, be it a projection, the constraint of a relation or the hook of a root
field, can do four things to it: replace the columns, add an expression, add a condition, and
register a relation whose own query is narrowed in turn.  `Edit` is the type of those steps;
nobody who holds only edits can read a query, set its limit or take a condition away.
-/

namespace GraphProjection

/-- A relation to load: the field that its rows are put under, its name in storage, its table
where that is known, the columns that match, and whether a row has many of them. -/
structure RelationTarget where
  field : String
  relation : String
  table : Option String
  localKey : String
  foreignKey : String
  many : Bool
deriving DecidableEq, Repr

namespace RelationTarget

/-- The table that is queried: the relation's name stands for a table that is not known. -/
def queriedTable (target : RelationTarget) : String := target.table.getD target.relation

end RelationTarget

/-- What the rows of a query have to meet. -/
inductive Condition where
  | equals (column : String) (value : Value)
  | within (column : String) (values : List Value)
deriving Repr

/-- A query on one table, with the queries of the relations to load beside its rows. -/
structure SelectQuery where
  table : String
  columns : List String
  expressions : List (String × String)
  conditions : List Condition
  limit : Option Nat
  offset : Option Nat
  eagerLoads : List (RelationTarget × SelectQuery)
deriving Repr

/-- One step of narrowing a query. -/
inductive Edit where
  | select (columns : List String)
  | selectRaw (expression outputAlias : String)
  | whereEq (column : String) (value : Value)
  | load (target : RelationTarget) (edits : List Edit)

namespace SelectQuery

/-- The query of every column of every row of a table. -/
def all (table : String) : SelectQuery := ⟨table, [], [], [], none, none, []⟩

/-- Replaces the selected columns. -/
def select (q : SelectQuery) (columns : List String) : SelectQuery :=
  { q with columns := columns }

/-- Adds an expression under an alias. -/
def selectRaw (q : SelectQuery) (expression outputAlias : String) : SelectQuery :=
  { q with expressions := q.expressions ++ [(expression, outputAlias)] }

/-- Adds a condition. -/
def addCondition (q : SelectQuery) (condition : Condition) : SelectQuery :=
  { q with conditions := q.conditions ++ [condition] }

/-- Adds the condition that a column has a value. -/
def whereEq (q : SelectQuery) (column : String) (value : Value) : SelectQuery :=
  q.addCondition (.equals column value)

/-- Adds the condition that a column has one of some values. -/
def whereIn (q : SelectQuery) (column : String) (values : List Value) : SelectQuery :=
  q.addCondition (.within column values)

/-- Sets how many rows are wanted. -/
def withLimit (q : SelectQuery) (limit : Nat) : SelectQuery := { q with limit := some limit }

/-- Sets how many rows are left out first. -/
def withOffset (q : SelectQuery) (offset : Nat) : SelectQuery := { q with offset := some offset }

/-- Registers a relation to load, with its query. -/
def addLoad (q : SelectQuery) (target : RelationTarget) (query : SelectQuery) : SelectQuery :=
  { q with eagerLoads := q.eagerLoads ++ [(target, query)] }

mutual

/-- Carries out one step. -/
def edit (q : SelectQuery) : Edit → SelectQuery
  | .select columns => q.select columns
  | .selectRaw expression outputAlias => q.selectRaw expression outputAlias
  | .whereEq column value => q.whereEq column value
  | .load target edits => q.addLoad target (editAll (all target.queriedTable) edits)

/-- Carries out steps one after the other. -/
def editAll (q : SelectQuery) : List Edit → SelectQuery
  | [] => q
  | e :: rest => editAll (edit q e) rest

end

theorem editAll_append (q : SelectQuery) (a b : List Edit) :
    q.editAll (a ++ b) = (q.editAll a).editAll b := by
  induction a generalizing q with
  | nil => simp [editAll]
  | cons e rest ih => simp [editAll, ih]

end SelectQuery

end GraphProjection
