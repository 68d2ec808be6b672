import GraphProjection.Document.Fragments
import GraphProjection.FieldNode

/-!
# Expanding an operation

The chosen operation of a document becomes a tree of fields: variables are replaced by their
values, selections that `@skip` or `@include` leave out are dropped, and fragments are replaced
by what they select, provided that they apply.  A fragment applies where its condition is the
type at hand, and where that type is not known.

Expansion comes after the check of the fragments, so it meets no spread of an unknown fragment
and no cycle.  It is written so that it ends in any case: a fragment that is being expanded is
not there to be spread again.
-/

namespace GraphProjection

/-- The named type that a field of a type leads to, as far as it is known. -/
abbrev TypeInfo := String → String → Option String

/-! ## Values -/

/-- A fractional number as a value; one past all of those that there are is null. -/
def Decimal.value (d : Decimal) : Value := Value.orNull (d.toBinary64?.map .double)

mutual

/-- The value of a constant. -/
def Constant.value : Constant → Value
  | .null => .null
  | .bool b => .bool b
  | .int n => .int n
  | .float d => d.value
  | .string s => .string s
  | .enum name => .string name
  | .list items => .array (Constant.itemValues items)
  | .object fields => .object (Entries.ofList (Constant.fieldValues fields))

/-- The values of constants. -/
def Constant.itemValues : List Constant → List Value
  | [] => []
  | item :: rest => item.value :: Constant.itemValues rest

/-- The values of the fields of a constant object. -/
def Constant.fieldValues : List (String × Constant) → List (String × Value)
  | [] => []
  | (name, field) :: rest => (name, field.value) :: Constant.fieldValues rest

end

/-- The variables of an operation: what it declares, and what the request gives. -/
structure Variables where
  declared : List VariableDefinition
  given : Arguments

namespace Variables

/-- The value of a variable: the one given, else the default; nothing where there is neither. -/
def value? (v : Variables) (definition : VariableDefinition) : Option Value :=
  (v.given.get? definition.name).or (definition.default.map (·.value))

/-- Looks up a variable, which the operation has to declare. -/
def lookup (v : Variables) (d : Document) (name : String) (offset : Nat) :
    Except OperationError (Option Value) :=
  match v.declared.find? (·.name == name) with
  | some definition => .ok (v.value? definition)
  | none => .error (.missingVariable name (d.locate offset))

end Variables

mutual

/-- The value of a literal; nothing where the literal is a variable that has no value.  Inside a
list or an object such a variable is null. -/
def Literal.evaluate (d : Document) (v : Variables) : Literal → Except OperationError (Option Value)
  | .variable name offset => v.lookup d name offset
  | .null => .ok (some .null)
  | .bool b => .ok (some (.bool b))
  | .int n => .ok (some (.int n))
  | .float f => .ok (some f.value)
  | .string s => .ok (some (.string s))
  | .enum name => .ok (some (.string name))
  | .list items =>
    match Literal.evaluateItems d v items with
    | .ok values => .ok (some (.array values))
    | .error e => .error e
  | .object fields =>
    match Literal.evaluateFields d v fields with
    | .ok values => .ok (some (.object (Entries.ofList values)))
    | .error e => .error e

/-- The values of the items of a list. -/
def Literal.evaluateItems (d : Document) (v : Variables) :
    List Literal → Except OperationError (List Value)
  | [] => .ok []
  | item :: rest =>
    match item.evaluate d v with
    | .error e => .error e
    | .ok value =>
      match Literal.evaluateItems d v rest with
      | .error e => .error e
      | .ok values => .ok (Value.orNull value :: values)

/-- The values of the fields of an object. -/
def Literal.evaluateFields (d : Document) (v : Variables) :
    List (String × Literal) → Except OperationError (List (String × Value))
  | [] => .ok []
  | (name, field) :: rest =>
    match field.evaluate d v with
    | .error e => .error e
    | .ok value =>
      match Literal.evaluateFields d v rest with
      | .error e => .error e
      | .ok values => .ok ((name, Value.orNull value) :: values)

end

/-- The arguments of a field on top of those evaluated already.  An argument that is a variable
without a value is left out. -/
def evaluateArguments (d : Document) (v : Variables) :
    List (String × Literal) → Arguments → Except OperationError Arguments
  | [], known => .ok known
  | (name, literal) :: rest, known =>
    match literal.evaluate d v with
    | .error e => .error e
    | .ok none => evaluateArguments d v rest known
    | .ok (some value) => evaluateArguments d v rest (known.put name value)

/-! ## Directives -/

namespace Directive

/-- The value of the condition at which a directive leaves a selection out, if it is one of the
two that do. -/
def excludedWhen? (directive : Directive) : Option Bool :=
  if directive.name = "skip" then some true
  else if directive.name = "include" then some false
  else none

/-- The boolean that a directive is given as its condition, if it is given one. -/
def condition (d : Document) (v : Variables) (directive : Directive) :
    Except OperationError (Option Bool) :=
  match directive.arguments.find? (·.1 == "if") with
  | none => .ok none
  | some (_, literal) =>
    match literal.evaluate d v with
    | .error e => .error e
    | .ok value => .ok (value.bind (·.asBool?))

/-- Whether directives leave a selection in.  The first that leaves it out decides. -/
def included (d : Document) (v : Variables) : List Directive → Except OperationError Bool
  | [] => .ok true
  | directive :: rest =>
    match directive.excludedWhen? with
    | none => included d v rest
    | some excluded =>
      match directive.condition d v with
      | .error e => .error e
      | .ok condition => if condition = some excluded then .ok false else included d v rest

end Directive

/-! ## Selections -/

/-- Whether a fragment applies to a type. -/
def typeMatches (parent condition : Option String) : Bool :=
  match parent, condition with
  | some parent, some condition => parent == condition
  | _, _ => true

/-- What expansion depends on. -/
structure Expansion where
  document : Document
  types : TypeInfo
  variableValues : Variables

namespace Expansion

/-- The type that a field leads to. -/
def childType (x : Expansion) (parent : Option String) (field : String) : Option String :=
  parent.bind (x.types · field)

/-- The fields that a spread stands for, given the type at hand. -/
abbrev Spreading := Name → Option String → Except OperationError (List FieldNode)

/-- The place of a field: that of its key, if it has one. -/
def place (x : Expansion) (key : Option Name) (name : Name) : Location :=
  x.document.locate (key.getD name).offset

mutual

/-- The fields of a selection, spreads being expanded by `spread`. -/
def expandSelection (x : Expansion) (spread : Spreading) (parent : Option String) :
    Selection → Except OperationError (List FieldNode)
  | .field key name arguments directives selections =>
    match Directive.included x.document x.variableValues directives with
    | .error e => .error e
    | .ok false => .ok []
    | .ok true =>
      match evaluateArguments x.document x.variableValues arguments [] with
      | .error e => .error e
      | .ok arguments =>
        match expandAll x spread (x.childType parent name.text) selections with
        | .error e => .error e
        | .ok children =>
          .ok [⟨key.map (·.text), name.text, arguments, x.place key name, children⟩]
  | .inlineFragment condition directives selections =>
    match Directive.included x.document x.variableValues directives with
    | .error e => .error e
    | .ok false => .ok []
    | .ok true =>
      if typeMatches parent condition then expandAll x spread (parent.or condition) selections
      else .ok []
  | .spread fragment directives =>
    match Directive.included x.document x.variableValues directives with
    | .error e => .error e
    | .ok false => .ok []
    | .ok true => spread fragment parent

/-- The fields of selections in order. -/
def expandAll (x : Expansion) (spread : Spreading) (parent : Option String) :
    List Selection → Except OperationError (List FieldNode)
  | [] => .ok []
  | s :: rest =>
    match expandSelection x spread parent s with
    | .error e => .error e
    | .ok nodes =>
      match expandAll x spread parent rest with
      | .error e => .error e
      | .ok more => .ok (nodes ++ more)

end

/-- The fields that a spread stands for, given the fragments that are not being expanded. -/
def expandSpread (x : Expansion) (pending : List Fragment) (spread : Name)
    (parent : Option String) : Except OperationError (List FieldNode) :=
  match h : pending.find? (·.name == spread.text) with
  | none => .error (.unknownFragment spread.text (x.document.locate spread.offset))
  | some f =>
    have := Fragment.length_without_lt h
    if typeMatches parent (some f.condition) then
      expandAll x (expandSpread x (Fragment.without spread.text pending))
        (parent.or (some f.condition)) f.selections
    else .ok []
termination_by pending.length

end Expansion

namespace Document

/-- The operation of a name, or the only one there is. -/
def selectOperation (d : Document) : Option String → Except OperationError Operation
  | some name =>
    match d.operations.find? (·.name == some name) with
    | some operation => .ok operation
    | none => .error (.unknownOperation name)
  | none =>
    match d.operations with
    | [operation] => .ok operation
    | [] => .error (.parse .noOperation)
    | _ => .error .ambiguousOperation

/-- The fields that an operation asks for on a root type. -/
def expandOperation (d : Document) (types : TypeInfo) (rootType : String) (operation : Operation)
    (given : Arguments) : Except OperationError (List FieldNode) :=
  let x : Expansion := ⟨d, types, ⟨operation.variableDefinitions, given⟩⟩
  x.expandAll (x.expandSpread d.fragments) (some rootType) operation.selections

/-- Chooses an operation, checks the fragments, and expands it. -/
def expand (d : Document) (types : TypeInfo) (rootType : String) (operationName : Option String)
    (given : Arguments) : Except OperationError (List FieldNode) :=
  match d.selectOperation operationName with
  | .error e => .error e
  | .ok operation =>
    match d.checkFragments operation with
    | .error e => .error e
    | .ok () => d.expandOperation types rootType operation given

/-- Reads a document and expands an operation of it. -/
def expandText (text : String) (types : TypeInfo) (rootType : String)
    (operationName : Option String) (given : Arguments) :
    Except OperationError (List FieldNode) :=
  match parse text with
  | .error fault => .error (.parse fault)
  | .ok d => d.expand types rootType operationName given

end Document

end GraphProjection
