import GraphProjection.Binary64
import GraphProjection.Text.Location
import GraphProjection.Value

/-!
# Executable documents

A document is what a client sends: operations, and fragments that the operations spread into their
selections.  The tree keeps what execution needs.  Names that an error may have to point at carry
the number of bytes in front of them; the operation's type, the types of variables and the
directives on definitions have no influence and are left out.

The values in a document are of two sorts.  A literal may use variables, a constant (the default
of a variable) may not.  `Constant.value` and `Literal.evaluate`, in `Document/Expansion.lean`,
give them their meaning.
-/

namespace GraphProjection

/-- A name and the number of bytes in front of it. -/
structure Name where
  text : String
  offset : Nat
deriving DecidableEq, Repr

/-- A value that is written without variables. -/
inductive Constant where
  | null
  | bool (value : Bool)
  | int (value : Int)
  | float (value : Decimal)
  | string (value : String)
  | enum (name : String)
  | list (items : List Constant)
  | object (fields : List (String × Constant))
deriving Repr

/-- A value that may use variables; the offset of a variable is that of its `$`. -/
inductive Literal where
  | variable (name : String) (offset : Nat)
  | null
  | bool (value : Bool)
  | int (value : Int)
  | float (value : Decimal)
  | string (value : String)
  | enum (name : String)
  | list (items : List Literal)
  | object (fields : List (String × Literal))
deriving Repr

/-- A directive with its arguments. -/
structure Directive where
  name : String
  arguments : List (String × Literal)
deriving Repr

/-- What a selection set is made of. -/
inductive Selection where
  | field (key : Option Name) (name : Name) (arguments : List (String × Literal))
      (directives : List Directive) (selections : List Selection)
  | inlineFragment (condition : Option String) (directives : List Directive)
      (selections : List Selection)
  | spread (fragment : Name) (directives : List Directive)
deriving Repr

/-- A variable that an operation declares. -/
structure VariableDefinition where
  name : String
  default : Option Constant
deriving Repr

/-- An operation. -/
structure Operation where
  name : Option String
  variableDefinitions : List VariableDefinition
  selections : List Selection
deriving Repr

/-- A fragment, which applies to the type of its condition. -/
structure Fragment where
  name : String
  condition : String
  selections : List Selection
deriving Repr

/-- A document and the text that it was read from. -/
structure Document where
  source : List Char
  operations : List Operation
  fragments : List Fragment
deriving Repr

namespace Document

/-- The place of a number of bytes in the text of a document. -/
def locate (d : Document) (offset : Nat) : Location := Location.ofOffset d.source offset

end Document

/-! ## Constants among the literals -/

mutual

/-- A literal without variables, as a constant. -/
def Literal.constant? : Literal → Option Constant
  | .variable _ _ => none
  | .null => some .null
  | .bool b => some (.bool b)
  | .int n => some (.int n)
  | .float d => some (.float d)
  | .string s => some (.string s)
  | .enum name => some (.enum name)
  | .list items => (Literal.constantItems? items).map .list
  | .object fields => (Literal.constantFields? fields).map .object

/-- Literals without variables, as constants. -/
def Literal.constantItems? : List Literal → Option (List Constant)
  | [] => some []
  | item :: rest => do
    let item ← item.constant?
    let rest ← Literal.constantItems? rest
    some (item :: rest)

/-- Fields without variables, as constants. -/
def Literal.constantFields? : List (String × Literal) → Option (List (String × Constant))
  | [] => some []
  | (name, field) :: rest => do
    let field ← field.constant?
    let rest ← Literal.constantFields? rest
    some ((name, field) :: rest)

end

mutual

/-- A constant as a literal. -/
def Constant.literal : Constant → Literal
  | .null => .null
  | .bool b => .bool b
  | .int n => .int n
  | .float d => .float d
  | .string s => .string s
  | .enum name => .enum name
  | .list items => .list (Constant.literalItems items)
  | .object fields => .object (Constant.literalFields fields)

/-- Constants as literals. -/
def Constant.literalItems : List Constant → List Literal
  | [] => []
  | item :: rest => item.literal :: Constant.literalItems rest

/-- Fields as literals. -/
def Constant.literalFields : List (String × Constant) → List (String × Literal)
  | [] => []
  | (name, field) :: rest => (name, field.literal) :: Constant.literalFields rest

end

end GraphProjection
