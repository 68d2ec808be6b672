import GraphProjection.Query

/-!
# Statements

A query as the text of an SQL statement with `?` for every value, and those values in the order
of their marks.  `SelectQuery.statement` is the query itself, `SelectQuery.countStatement` the
number of rows that meet its conditions; both have the same conditions and the same values.

An identifier is quoted part by part, the parts being what stands between its dots: a part is put
between quotes with every quote in it doubled, and only a part that is just `*` stays bare.
-/

namespace GraphProjection

/-- A statement and the values of its marks. -/
structure Statement where
  sql : String
  bindings : List Value

namespace Sql

/-- The inside of a quoted part: every quote doubled. -/
def doubleQuotes (part : List Char) : List Char :=
  part.flatMap fun c => if c = '"' then ['"', '"'] else [c]

/-- A part of an identifier. -/
def quotePart (part : List Char) : List Char :=
  if part = ['*'] then part else '"' :: doubleQuotes part ++ ['"']

/-- An identifier. -/
def quote (identifier : String) : List Char :=
  List.intercalate ['.'] ((identifier.toList.splitOn '.').map quotePart)

/-- Texts with commas between them. -/
def commaSeparated (texts : List (List Char)) : List Char := List.intercalate [',', ' '] texts

/-- A condition, with a mark for every value. -/
def condition : Condition → List Char
  | .equals column _ => quote column ++ " = ?".toList
  | .within column [] => quote column ++ " in (null)".toList
  | .within column values =>
    quote column ++ " in (".toList ++ commaSeparated (values.map fun _ => ['?']) ++ [')']

/-- The values of a condition. -/
def conditionBindings : Condition → List Value
  | .equals _ value => [value]
  | .within _ values => values

/-- The clause of all conditions, if there are any. -/
def whereClause (conditions : List Condition) : List Char :=
  if conditions.isEmpty then []
  else " where ".toList ++ List.intercalate " and ".toList (conditions.map condition)

/-- The values of all conditions. -/
def bindings (conditions : List Condition) : List Value := conditions.flatMap conditionBindings

/-- An expression under its alias. -/
def expression (e : String × String) : List Char := e.1.toList ++ " AS ".toList ++ e.2.toList

/-- What is selected: the columns, or all of them where none is named, and the expressions. -/
def selection (q : SelectQuery) : List Char :=
  let columns := if q.columns.isEmpty then [['*']] else q.columns.map quote
  commaSeparated (columns ++ q.expressions.map expression)

/-- A clause with a number, if there is one. -/
def numberClause (keyword : String) : Option Nat → List Char
  | some n => ' ' :: keyword.toList ++ ' ' :: Nat.toDigits 10 n
  | none => []

end Sql

namespace SelectQuery

/-- The statement that fetches the rows of a query. -/
def statement (q : SelectQuery) : Statement where
  sql := String.ofList ("select ".toList ++ Sql.selection q ++ " from ".toList ++
    Sql.quote q.table ++ Sql.whereClause q.conditions ++ Sql.numberClause "limit" q.limit ++
    Sql.numberClause "offset" q.offset)
  bindings := Sql.bindings q.conditions

/-- The statement that counts the rows that meet the conditions of a query. -/
def countStatement (q : SelectQuery) : Statement where
  sql := String.ofList ("select count(*) as aggregate from ".toList ++ Sql.quote q.table ++
    Sql.whereClause q.conditions)
  bindings := Sql.bindings q.conditions

end SelectQuery

end GraphProjection
