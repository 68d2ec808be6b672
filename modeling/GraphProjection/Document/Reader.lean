import GraphProjection.Document.Token
import GraphProjection.Text.Blank

/-!
# Reading a document

A document is read from its tokens by recursive descent.  The words of the grammar are no
reserved words: only the place of a name decides whether `query` or `on` or `true` is a keyword.
A selection set is never empty, nor is a list of variables; a list of arguments may be.

The readers that call one another are given fuel.  No token is looked at by more than two of
them in a row, so twice the number of tokens is enough.
-/

namespace GraphProjection

/-- Why a text is no document that can be executed. -/
inductive ParseFault where
  | malformed
  | empty
  | noOperation
deriving DecidableEq, Repr

namespace ParseFault

/-- What is said of the fault. -/
def message : ParseFault → String
  | .malformed => "Syntax error"
  | .empty => "Syntax error: the graphql document was empty, please provide an operation"
  | .noOperation => "Syntax error: The document does not contain any operation"

end ParseFault

namespace Document

/-! ## Single tokens -/

/-- A name. -/
def readName : List Token → Option (Name × List Token)
  | ⟨.name text, offset⟩ :: rest => some (⟨text, offset⟩, rest)
  | _ => none

/-- The tokens behind a mark that has to come next. -/
def expectMark (c : Char) : List Token → Option (List Token)
  | ⟨.mark d, _⟩ :: rest => if d = c then some rest else none
  | _ => none

/-! ## Values -/

mutual

/-- A value, and the tokens behind it. -/
def readLiteral : Nat → List Token → Option (Literal × List Token)
  | 0, _ => none
  | fuel + 1, tokens =>
    match tokens with
    | ⟨.mark '$', offset⟩ :: ⟨.name name, _⟩ :: rest => some (.variable name offset, rest)
    | ⟨.int n, _⟩ :: rest => some (.int n, rest)
    | ⟨.float d, _⟩ :: rest => some (.float d, rest)
    | ⟨.string s, _⟩ :: rest => some (.string s, rest)
    | ⟨.name "true", _⟩ :: rest => some (.bool true, rest)
    | ⟨.name "false", _⟩ :: rest => some (.bool false, rest)
    | ⟨.name "null", _⟩ :: rest => some (.null, rest)
    | ⟨.name name, _⟩ :: rest => some (.enum name, rest)
    | ⟨.mark '[', _⟩ :: rest => (readItems fuel rest).map fun (items, rest) => (.list items, rest)
    | ⟨.mark '\x7b', _⟩ :: rest =>
      (readPairs '\x7d' fuel rest).map fun (fields, rest) => (.object fields, rest)
    | _ => none

/-- The items of a list up to its closing bracket. -/
def readItems : Nat → List Token → Option (List Literal × List Token)
  | 0, _ => none
  | fuel + 1, tokens =>
    match tokens with
    | ⟨.mark ']', _⟩ :: rest => some ([], rest)
    | tokens => do
      let (item, rest) ← readLiteral fuel tokens
      let (items, rest) ← readItems fuel rest
      some (item :: items, rest)

/-- Values under names, up to a closing mark: the fields of an object or the arguments of a
field. -/
def readPairs (closing : Char) : Nat → List Token → Option (List (String × Literal) × List Token)
  | 0, _ => none
  | fuel + 1, tokens =>
    match tokens with
    | ⟨.name name, _⟩ :: ⟨.mark ':', _⟩ :: rest => do
      let (value, rest) ← readLiteral fuel rest
      let (pairs, rest) ← readPairs closing fuel rest
      some ((name, value) :: pairs, rest)
    | tokens => (expectMark closing tokens).map fun rest => ([], rest)

end

/-- Arguments, if there are any. -/
def readArguments (fuel : Nat) : List Token → Option (List (String × Literal) × List Token)
  | ⟨.mark '(', _⟩ :: rest => readPairs ')' fuel rest
  | tokens => some ([], tokens)

/-- Directives, as many as there are. -/
def readDirectives : Nat → List Token → Option (List Directive × List Token)
  | fuel + 1, ⟨.mark '@', _⟩ :: ⟨.name name, _⟩ :: rest => do
    let (arguments, rest) ← readArguments fuel rest
    let (directives, rest) ← readDirectives fuel rest
    some (⟨name, arguments⟩ :: directives, rest)
  | _, ⟨.mark '@', _⟩ :: _ => none
  | _, tokens => some ([], tokens)

/-! ## Selections -/

/-- The key of a field, if it has one, and its name. -/
def readFieldName (tokens : List Token) : Option ((Option Name × Name) × List Token) := do
  let (first, rest) ← readName tokens
  match rest with
  | ⟨.mark ':', _⟩ :: rest =>
    let (name, rest) ← readName rest
    some ((some first, name), rest)
  | rest => some ((none, first), rest)

mutual

/-- A selection, and the tokens behind it. -/
def readSelection : Nat → List Token → Option (Selection × List Token)
  | 0, _ => none
  | fuel + 1, tokens =>
    match tokens with
    | ⟨.dots, _⟩ :: ⟨.name "on", _⟩ :: rest => do
      let (condition, rest) ← readName rest
      let (directives, rest) ← readDirectives fuel rest
      let (selections, rest) ← readSelectionSet fuel rest
      some (.inlineFragment (some condition.text) directives selections, rest)
    | ⟨.dots, _⟩ :: ⟨.name name, offset⟩ :: rest => do
      let (directives, rest) ← readDirectives fuel rest
      some (.spread ⟨name, offset⟩ directives, rest)
    | ⟨.dots, _⟩ :: rest => do
      let (directives, rest) ← readDirectives fuel rest
      let (selections, rest) ← readSelectionSet fuel rest
      some (.inlineFragment none directives selections, rest)
    | tokens => do
      let ((key, name), rest) ← readFieldName tokens
      let (arguments, rest) ← readArguments fuel rest
      let (directives, rest) ← readDirectives fuel rest
      match rest with
      | ⟨.mark '\x7b', _⟩ :: _ =>
        let (selections, rest) ← readSelectionSet fuel rest
        some (.field key name arguments directives selections, rest)
      | rest => some (.field key name arguments directives [], rest)

/-- A selection set between braces, with one selection at least. -/
def readSelectionSet : Nat → List Token → Option (List Selection × List Token)
  | 0, _ => none
  | fuel + 1, tokens => do
    let rest ← expectMark '\x7b' tokens
    let (first, rest) ← readSelection fuel rest
    let (more, rest) ← readSelections fuel rest
    some (first :: more, rest)

/-- The selections up to a closing brace. -/
def readSelections : Nat → List Token → Option (List Selection × List Token)
  | 0, _ => none
  | fuel + 1, tokens =>
    match tokens with
    | ⟨.mark '\x7d', _⟩ :: rest => some ([], rest)
    | tokens => do
      let (selection, rest) ← readSelection fuel tokens
      let (selections, rest) ← readSelections fuel rest
      some (selection :: selections, rest)

end

/-! ## Definitions -/

/-- Whether a token may stand behind the name of a type: the mark for a type that excludes null,
or the closing bracket of a list. -/
def closesType (t : Token) : Bool := t.lexeme == .mark '!' || t.lexeme == .mark ']'

/-- The tokens behind a type.  The type of a variable means nothing to an execution, so it is
only passed over: brackets need not match, and marks may be repeated. -/
def skipType (tokens : List Token) : Option (List Token) :=
  (readName (tokens.dropWhile (·.lexeme == .mark '['))).map fun (_, rest) =>
    rest.dropWhile closesType

/-- The default of a variable, if it has one. -/
def readDefault (fuel : Nat) : List Token → Option (Option Constant × List Token)
  | ⟨.mark '=', _⟩ :: rest => do
    let (literal, rest) ← readLiteral fuel rest
    let constant ← literal.constant?
    some (some constant, rest)
  | tokens => some (none, tokens)

/-- The definition of a variable.  Its default uses no variables; its directives may. -/
def readVariable (fuel : Nat) : List Token → Option (VariableDefinition × List Token)
  | ⟨.mark '$', _⟩ :: ⟨.name name, _⟩ :: ⟨.mark ':', _⟩ :: rest => do
    let rest ← skipType rest
    let (default, rest) ← readDefault fuel rest
    let (_, rest) ← readDirectives fuel rest
    some (⟨name, default⟩, rest)
  | _ => none

/-- The definitions of variables up to the closing parenthesis. -/
def readVariables : Nat → List Token → Option (List VariableDefinition × List Token)
  | 0, _ => none
  | fuel + 1, tokens =>
    match tokens with
    | ⟨.mark ')', _⟩ :: rest => some ([], rest)
    | tokens => do
      let (definition, rest) ← readVariable fuel tokens
      let (definitions, rest) ← readVariables fuel rest
      some (definition :: definitions, rest)

/-- The definitions of variables, if there are any; parentheses hold one at least. -/
def readVariableList (fuel : Nat) : List Token → Option (List VariableDefinition × List Token)
  | ⟨.mark '(', _⟩ :: rest =>
    (readVariables fuel rest).filter fun (definitions, _) => !definitions.isEmpty
  | tokens => some ([], tokens)

/-- The name of an operation, if it has one. -/
def readOperationName : List Token → Option String × List Token
  | ⟨.name name, _⟩ :: rest => (some name, rest)
  | tokens => (none, tokens)

/-- What follows the keyword of an operation. -/
def readOperation (fuel : Nat) (tokens : List Token) : Option (Operation × List Token) := do
  let (name, rest) := readOperationName tokens
  let (definitions, rest) ← readVariableList fuel rest
  let (_, rest) ← readDirectives fuel rest
  let (selections, rest) ← readSelectionSet fuel rest
  some (⟨name, definitions, selections⟩, rest)

/-- What follows the keyword of a fragment. -/
def readFragment (fuel : Nat) : List Token → Option (Fragment × List Token)
  | ⟨.name name, _⟩ :: ⟨.name "on", _⟩ :: rest => do
    let (condition, rest) ← readName rest
    let (_, rest) ← readDirectives fuel rest
    let (selections, rest) ← readSelectionSet fuel rest
    if name = "on" then none else some (⟨name, condition.text, selections⟩, rest)
  | _ => none

/-- The definitions of a document, behind those that were read already. -/
def readDefinitions : Nat → Document → List Token → Option Document
  | _, d, [] => some d
  | 0, _, _ => none
  | fuel + 1, d, ⟨.mark '\x7b', offset⟩ :: rest => do
    let (selections, rest) ← readSelectionSet (fuel + 1) (⟨.mark '\x7b', offset⟩ :: rest)
    readDefinitions fuel { d with operations := d.operations ++ [⟨none, [], selections⟩] } rest
  | fuel + 1, d, ⟨.name keyword, _⟩ :: rest =>
    if keyword = "query" ∨ keyword = "mutation" ∨ keyword = "subscription" then do
      let (operation, rest) ← readOperation (fuel + 1) rest
      readDefinitions fuel { d with operations := d.operations ++ [operation] } rest
    else if keyword = "fragment" then do
      let (fragment, rest) ← readFragment (fuel + 1) rest
      readDefinitions fuel { d with fragments := d.fragments ++ [fragment] } rest
    else none
  | _, _, _ => none

/-- Reads a document. -/
def parse (text : String) : Except ParseFault Document :=
  let source := text.toList
  if (Text.trim source).isEmpty then .error .empty
  else
    match (Token.scan source).bind fun tokens =>
        readDefinitions (2 * tokens.length + 2) ⟨source, [], []⟩ tokens with
    | some d => .ok d
    | none => .error .malformed

end Document

end GraphProjection
