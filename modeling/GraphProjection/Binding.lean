import GraphProjection.Value

/-!
# Binding parameters

Resolvers and expression callbacks declare parameters.  A scalar parameter takes the request's
argument of its name; a service parameter takes an instance from the request's locator, whatever
the arguments are called.  `bind` gives every parameter its value, in the order of declaration,
or names the first parameter that has none.
-/

namespace GraphProjection

/-- What a parameter asks for. -/
inductive ParameterKind where
  | scalar (type : String)
  | service (key : String)
deriving DecidableEq, Repr

/-- A declared parameter. -/
structure Parameter where
  name : String
  kind : ParameterKind
deriving DecidableEq, Repr

/-- Finds the service instance of a key, where the request has one. -/
abbrev ServiceLocator := String → Option Value

/-- The locator of a fixed list of services. -/
def ServiceLocator.ofEntries (services : Entries Value) : ServiceLocator := services.get?

/-- What a parameter was bound to. -/
inductive BoundValue where
  | argument (value : Value)
  | service (value : Value)
deriving Repr

/-- A parameter that is bound to nothing. -/
structure BindError where
  name : String
deriving DecidableEq, Repr

namespace BindError

/-- What is said of the error. -/
def message (e : BindError) : String := "'" ++ e.name ++ "' could not be injected"

end BindError

/-- The values of parameters, by parameter name. -/
abbrev Bindings := Entries BoundValue

namespace Bindings

/-- The argument bound under a name. -/
def argument? (bound : Bindings) (name : String) : Option Value :=
  match Entries.get? bound name with
  | some (.argument value) => some value
  | _ => none

/-- The service bound under a name. -/
def service? (bound : Bindings) (name : String) : Option Value :=
  match Entries.get? bound name with
  | some (.service value) => some value
  | _ => none

end Bindings

namespace Parameter

/-- The value of a parameter, where it has one. -/
def resolve? (arguments : Arguments) (services : ServiceLocator) (p : Parameter) :
    Option BoundValue :=
  match p.kind with
  | .scalar _ => (arguments.get? p.name).map .argument
  | .service key => (services key).map .service

end Parameter

/-- Binds parameters one after the other on top of what is bound already. -/
def bindOnto (arguments : Arguments) (services : ServiceLocator) :
    List Parameter → Bindings → Except BindError Bindings
  | [], bound => .ok bound
  | p :: rest, bound =>
    match p.resolve? arguments services with
    | some value => bindOnto arguments services rest (Entries.put bound p.name value)
    | none => .error ⟨p.name⟩

/-- Binds every parameter, or names the first that has no value. -/
def bind (parameters : List Parameter) (arguments : Arguments) (services : ServiceLocator) :
    Except BindError Bindings :=
  bindOnto arguments services parameters []

end GraphProjection
