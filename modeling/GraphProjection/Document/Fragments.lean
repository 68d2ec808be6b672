import GraphProjection.Document.Reader

/-!
# Checking the fragments of a document

Before an operation is expanded, every spread in it and in any fragment of the document is
followed, whether or not the operation reaches it and whatever directives and type conditions
say.  A spread has to name a fragment of the document, and no fragment may reach itself.

The walk goes depth first through the operation and then through the fragments in order.  It
carries the names on the way from the top, in which a repeated name is a cycle, and the names of
the fragments that were walked to the end, which are not walked again.  It also carries the
fragments that are not on the way: a spread that may be followed takes one of them away, so the
walk ends on every document.
-/

namespace GraphProjection

/-- Why an operation cannot be expanded. -/
inductive OperationError where
  | parse (fault : ParseFault)
  | fragmentCycle (cycle : List String) (location : Location)
  | unknownFragment (name : String) (location : Location)
  | unknownOperation (name : String)
  | ambiguousOperation
  | missingVariable (name : String) (location : Location)
deriving DecidableEq, Repr

namespace OperationError

/-- What is said of the error. -/
def message : OperationError → String
  | .parse fault => fault.message
  | .fragmentCycle cycle _ => "Fragment cycle detected: " ++ String.intercalate ", " cycle
  | .unknownFragment name _ => "Unknown fragment named '" ++ name ++ "'"
  | .unknownOperation name => "Unknown operation named '" ++ name ++ "'"
  | .ambiguousOperation =>
    "Operation name is required when the document contains several operations"
  | .missingVariable name _ => "Variable '$" ++ name ++ "' is not declared by the operation"

/-- The place in the document that the error points at. -/
def location? : OperationError → Option Location
  | .fragmentCycle _ location | .unknownFragment _ location | .missingVariable _ location =>
    some location
  | .parse _ | .unknownOperation _ | .ambiguousOperation => none

end OperationError

/-- Fragments without those of a name. -/
def Fragment.without (name : String) (fragments : List Fragment) : List Fragment :=
  fragments.filter (·.name != name)

theorem Fragment.length_without_lt {name : String} {fragments : List Fragment} {f : Fragment}
    (h : fragments.find? (·.name == name) = some f) :
    (Fragment.without name fragments).length < fragments.length := by
  have hm : f ∈ fragments := List.mem_of_find?_eq_some h
  have hn : (f.name == name) = true := by simpa using List.find?_some h
  have hlt := List.length_filter_lt_length_iff_exists (p := (·.name != name)) (l := fragments)
  exact hlt.2 ⟨f, hm, by simp [bne, hn]⟩

namespace Document

/-! ## The walk -/

/-- The fragments that were walked to the end. -/
abbrev Walked := List String

mutual

/-- Walks a selection, following spreads by `follow`. -/
def walkSelection (follow : Name → Walked → Except OperationError Walked) :
    Selection → Walked → Except OperationError Walked
  | .field _ _ _ _ selections, walked => walkAll follow selections walked
  | .inlineFragment _ _ selections, walked => walkAll follow selections walked
  | .spread fragment _, walked => follow fragment walked

/-- Walks selections in order. -/
def walkAll (follow : Name → Walked → Except OperationError Walked) :
    List Selection → Walked → Except OperationError Walked
  | [], walked => .ok walked
  | s :: rest, walked =>
    match walkSelection follow s walked with
    | .ok walked => walkAll follow rest walked
    | .error e => .error e

end

/-- Follows a spread, given the names on the way to it and the fragments that are not on it. -/
def followSpread (d : Document) (pending : List Fragment) (way : List String) (spread : Name)
    (walked : Walked) : Except OperationError Walked :=
  if way.contains spread.text then
    .error (.fragmentCycle (way ++ [spread.text]) (d.locate spread.offset))
  else if walked.contains spread.text then .ok walked
  else
    match h : pending.find? (·.name == spread.text) with
    | none => .error (.unknownFragment spread.text (d.locate spread.offset))
    | some f =>
      have := Fragment.length_without_lt h
      match walkAll (followSpread d (Fragment.without spread.text pending) (way ++ [spread.text]))
          f.selections walked with
      | .ok walked => .ok (spread.text :: walked)
      | .error e => .error e
termination_by pending.length

/-- Walks the fragments that were not walked yet. -/
def walkFragments (d : Document) : List Fragment → Walked → Except OperationError Walked
  | [], walked => .ok walked
  | f :: rest, walked =>
    if walked.contains f.name then walkFragments d rest walked
    else
      match walkAll (followSpread d (Fragment.without f.name d.fragments) [f.name])
          f.selections walked with
      | .ok walked => walkFragments d rest (f.name :: walked)
      | .error e => .error e

/-- Checks every spread of an operation and of the fragments of a document. -/
def checkFragments (d : Document) (operation : Operation) : Except OperationError Unit :=
  match walkAll (followSpread d d.fragments []) operation.selections [] with
  | .error e => .error e
  | .ok walked =>
    match walkFragments d d.fragments walked with
    | .error e => .error e
    | .ok _ => .ok ()

end Document

end GraphProjection
