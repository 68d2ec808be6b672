import GraphProjection.Page.Kind
import GraphProjection.Registry.Resolve
import GraphProjection.Settings

/-!
# The registry

A registry holds the declarations of the output types and answers what is known of a name: the
type's descriptors, the type a field leads to, whether it is the name of a page envelope.

`Declarations.build` checks every declaration, so that a registry built by it has no wrong type
left to be found at request time; `Declarations.buildLazy` only makes sure that no type is
declared twice, and then a wrong declaration shows when its type is first asked for.
-/

namespace GraphProjection

/-- The output types of a schema, each declared once. -/
structure Registry where
  settings : Settings
  types : List TypeDeclaration

namespace Registry

/-- The names of the types, in the order of declaration. -/
def typeNames (r : Registry) : List String := r.types.map (·.name)

/-- The declaration of a type. -/
def declaration? (r : Registry) (name : String) : Option TypeDeclaration :=
  r.types.find? (·.name == name)

/-- Whether a type is registered. -/
def isRegistered (r : Registry) (name : String) : Bool := (r.declaration? name).isSome

/-- The item type of an envelope of one kind. -/
def itemOf? (r : Registry) (name : String) (kind : PageKind) : Option (PageKind × String) :=
  ((kind.item? name).filter r.isRegistered).map (kind, ·)

/-- The kind and the item type of an envelope's name. -/
def envelope? (r : Registry) (name : String) : Option (PageKind × String) :=
  PageKind.all.findSome? (r.itemOf? name)

/-- Whether a name is that of a registered type or of an envelope of one. -/
def isOutputType (r : Registry) (name : String) : Bool :=
  r.isRegistered name || (r.envelope? name).isSome

/-- The descriptors of a type; a type that is not registered has none. -/
def describe (r : Registry) (name : String) : Except RegistryError (Option OutputType) :=
  match r.declaration? name with
  | none => .ok none
  | some d =>
    match d.resolve r.isOutputType with
    | .error e => .error e
    | .ok t => .ok (some t)

/-- The descriptors of a type that has to be registered. -/
def expect (r : Registry) (name : String) : Except RegistryError OutputType :=
  match r.describe name with
  | .error e => .error e
  | .ok none => .error (.unknownType name)
  | .ok (some t) => .ok t

/-- The named type that a field of a type leads to, as far as it is known. -/
def targetType? (r : Registry) (parent field : String) : Option String :=
  match r.envelope? parent with
  | some (_, item) => if field = "data" then some item else none
  | none =>
    match r.describe parent with
    | .ok (some t) => (t.field? field).map (·.type.namedType)
    | _ => none

end Registry

/-- Settings and type declarations, before anything of them is checked. -/
structure Declarations where
  settings : Settings := {}
  types : List TypeDeclaration := []

namespace Declarations

/-- The first name that was used before. -/
def repeatedName? : List String → List String → Option String
  | [], _ => none
  | name :: rest, known =>
    if known.contains name then some name else repeatedName? rest (name :: known)

/-- The registry of declarations that declare no type twice. -/
def buildLazy (d : Declarations) : Except RegistryError Registry :=
  match repeatedName? (d.types.map (·.name)) [] with
  | some name => .error (.duplicateType name)
  | none => .ok ⟨d.settings, d.types⟩

/-- The first thing wrong with the types of a registry. -/
def firstFault? (r : Registry) (names : List String) : Option RegistryError :=
  names.findSome? fun name =>
    match r.describe name with
    | .error e => some e
    | .ok _ => none

/-- The registry of declarations that are right throughout. -/
def build (d : Declarations) : Except RegistryError Registry :=
  match d.buildLazy with
  | .error e => .error e
  | .ok r =>
    match firstFault? r r.typeNames with
    | some e => .error e
    | none => .ok r

/-- Replaces the first element that meets a condition, if any does. -/
def updateFirst? {α : Type} (p : α → Bool) (update : α → α) : List α → Option (List α)
  | [] => none
  | x :: rest => if p x then some (update x :: rest) else (updateFirst? p update rest).map (x :: ·)

/-- Changes the declaration of a field in place. -/
def updateField (d : Declarations) (type field : String)
    (update : FieldDeclaration → FieldDeclaration) : Except RegistryError Declarations :=
  match d.types.find? (·.name == type) with
  | none => .error (.unknownType type)
  | some t =>
    match updateFirst? (·.name == field) update t.fields with
    | none => .error (.invalidField type field .undeclared)
    | some fields =>
      let types := updateFirst? (·.name == type) (fun t => { t with fields := fields }) d.types
      .ok { d with types := types.getD d.types }

end Declarations

end GraphProjection
