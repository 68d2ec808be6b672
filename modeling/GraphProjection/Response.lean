import GraphProjection.Projection.OfSelection
import GraphProjection.Document.Fragments
import GraphProjection.Page
import GraphProjection.Shape

/-!
# Responses

A response holds data, unless the request was rejected as a whole, and errors, if there are any.
An error says what went wrong and where: in the request by locations, in the response by a path.
Extensions carry what else there is to say under keys; in the response they form an object, so a
key given twice appears once, in its first place with its last value.

`ExecutionError` is everything that can fail a root field.  The causes that are the server's own
are not shown to the client unless the settings ask for it.
-/

namespace GraphProjection

/-- The class of an error. -/
inductive ErrorCode where
  | badRequest
  | internalServerError
  | operationParsingError
  | operationValidationError
deriving DecidableEq, Repr

namespace ErrorCode

/-- The name of a class. -/
def name : ErrorCode → String
  | .badRequest => "BAD_REQUEST"
  | .internalServerError => "INTERNAL_SERVER_ERROR"
  | .operationParsingError => "OPERATION_PARSING_ERROR"
  | .operationValidationError => "OPERATION_VALIDATION_ERROR"

end ErrorCode

namespace PathSegment

/-- A step as a value. -/
def value : PathSegment → Value
  | .key name => .string name
  | .index n => .int n

end PathSegment

namespace Location

/-- A location as a value. -/
def value (l : Location) : Value := .object [("line", .int l.line), ("column", .int l.column)]

end Location

/-- An error of a response. -/
structure ResponseError where
  message : String
  code : ErrorCode
  locations : List Location
  path : Option (List PathSegment)
  extensions : List (String × Value)
deriving DecidableEq

namespace ResponseError

/-- An error with a message and a class and nothing else. -/
def plain (message : String) (code : ErrorCode) : ResponseError := ⟨message, code, [], none, []⟩

/-- The error that stands for every cause that is not shown. -/
def internal : ResponseError := plain "Internal server error" .internalServerError

/-- Adds a location behind those that are there. -/
def withLocation (e : ResponseError) (location : Location) : ResponseError :=
  { e with locations := e.locations ++ [location] }

/-- Sets the path. -/
def withPath (e : ResponseError) (path : List PathSegment) : ResponseError :=
  { e with path := some path }

/-- Adds an extension behind those that are there. -/
def withExtension (e : ResponseError) (key : String) (value : Value) : ResponseError :=
  { e with extensions := e.extensions ++ [(key, value)] }

/-- The value given first for a key. -/
def extension? (e : ResponseError) (key : String) : Option Value := Entries.get? e.extensions key

/-- The extensions as they appear in the response. -/
def extensionMembers (e : ResponseError) : Entries Value := Entries.ofList e.extensions

/-- A member that is left out where its list is empty. -/
def listed (name : String) (items : List Value) : List (String × Value) :=
  if items.isEmpty then [] else [(name, .array items)]

/-- The error as a value. -/
def value (e : ResponseError) : Value :=
  .object (("message", .string e.message) :: listed "locations" (e.locations.map (·.value)) ++
    (match e.path with
      | some path => [("path", .array (path.map (·.value)))]
      | none => []) ++
    (if e.extensions.isEmpty then [] else [("extensions", .object e.extensionMembers)]))

end ResponseError

/-- The response to a request. -/
structure Response where
  data : Option Value
  errors : List ResponseError
deriving DecidableEq

namespace Response

/-- The response to a request that is rejected as a whole. -/
def rejected (e : ResponseError) : Response := ⟨none, [e]⟩

/-- The response as a value. -/
def value (r : Response) : Value :=
  .object ((match r.data with
      | some data => [("data", data)]
      | none => []) ++ ResponseError.listed "errors" (r.errors.map (·.value)))

end Response

/-- Why the storage could not answer. -/
structure StorageError where
  message : String
deriving DecidableEq, Repr

/-- Why a root field has no value. -/
inductive ExecutionError where
  | unknownRootField (type field : String)
  | noMatchingRow (field type : String)
  | bind (error : BindError)
  | projection (error : ProjectionError)
  | page (error : PageError)
  | storage (error : StorageError)
  | shape (error : ShapeError)
deriving DecidableEq, Repr

namespace ExecutionError

/-- What is said of the error. -/
def message : ExecutionError → String
  | .unknownRootField type field =>
    "Cannot query field '" ++ field ++ "' on type '" ++ type ++ "'"
  | .noMatchingRow field type =>
    "No row matches the arguments of '" ++ field ++ "', whose type '" ++ type ++
      "' is not nullable"
  | .bind e => e.message
  | .projection e => e.message
  | .page e => e.message
  | .storage e => "Storage query failed: " ++ e.message
  | .shape e => e.message

/-- The class of the error. -/
def code : ExecutionError → ErrorCode
  | .unknownRootField _ _ | .projection (.unknownField _ _)
  | .projection (.conflictingArguments _ _) => .operationValidationError
  | .page _ | .noMatchingRow _ _ => .badRequest
  | .bind _ | .projection (.registry _) | .storage _ | .shape _ => .internalServerError

/-- The key under which the cause of an internal error is shown. -/
def debugKey : String := "debugMessage"

/-- The error as the client sees it. -/
def response (debug : Bool) (e : ExecutionError) : ResponseError :=
  match e.code with
  | .internalServerError =>
    if debug then ResponseError.internal.withExtension debugKey (.string e.message)
    else .internal
  | code => .plain e.message code

end ExecutionError

namespace OperationError

/-- The error as the client sees it. -/
def response (e : OperationError) : ResponseError :=
  let code := match e with
    | .parse _ => .operationParsingError
    | _ => .operationValidationError
  let plain := ResponseError.plain e.message code
  match e.location? with
  | some location => plain.withLocation location
  | none => plain

end OperationError

end GraphProjection
