import GraphProjection.Document.Expansion
import GraphProjection.Schema
import GraphProjection.Stitching

/-!
# Executing requests

A request that cannot be read or expanded is rejected before the storage is called.  Of any other
request the root fields are answered one by one, each under its key: a field that fails is null
and adds one error, and the other fields do not notice.

A root field is answered in steps.  Its parameters are bound and its selection is projected; the
query gets what the projection, the filters and the hook make of it; then the rows are fetched as
the field's type says, completed with their relations, and shaped.
-/

namespace GraphProjection

/-- A request. -/
structure Request where
  query : String
  operationName : Option String := none
  variableValues : Arguments := []

/-- A response, with the calls that were made for it. -/
structure Execution where
  calls : List StorageCall
  response : Response

namespace Schema

/-! ## Preparing a root field -/

/-- What is known about a root field before anything is fetched. -/
structure Prepared where
  projection : Projection
  query : SelectQuery

/-- The projection of a root field: narrowed, unless its strategy is to fetch every column. -/
def rootProjection (field : RootField) (p : Projection) : Projection :=
  match field.declaration.strategy with
  | .allColumns => p.widened
  | .selectFields => p

/-- The conditions of the filters whose arguments are given. -/
def filterEdits (d : RootDeclaration) (arguments : Arguments) : List Edit :=
  d.filters.filterMap fun (argument, column) =>
    (arguments.get? argument).map (.whereEq (d.table ++ "." ++ column))

/-- What the hook of a root field does with what was bound. -/
def hookEdits (d : RootDeclaration) (bound : Bindings) : List Edit :=
  match d.hook with
  | some hook => hook bound
  | none => []

/-- Binds the parameters of a root field, projects its selection and prepares its query. -/
def prepare (s : Schema) (field : RootField) (r : ResponseField) :
    Except ExecutionError Prepared :=
  let d := field.declaration
  match bind d.parameters r.node.arguments s.services with
  | .error e => .error (.bind e)
  | .ok bound =>
    match Projector.project ⟨s.registry, s.services⟩ field.type.namedType r.children with
    | .error e => .error (.projection e)
    | .ok p =>
      let p := rootProjection field p
      let query := (p.applyTo (SelectQuery.all d.table)).editAll
        (filterEdits d r.node.arguments ++ hookEdits d bound)
      .ok ⟨p, query⟩

/-! ## Fetching its rows -/

/-- Fetches the rows of a query and completes them with their relations. -/
def fetchRows (s : Schema) (storage : Storage) (p : Prepared) (query : SelectQuery)
    (keep : List Row → List Row) : Traced (List Row) :=
  (storage.traceFetch query).andThen fun rows =>
    Stitching.loadQuery storage s.registry.settings.defaultPerPage query (some p.projection)
      (keep rows)

/-- The total of a page that has to know it. -/
def fetchTotal (storage : Storage) (page : PageRequest) (query : SelectQuery) :
    Traced (Option Nat) :=
  if page.needsTotal then (storage.traceCount query).andThen fun n => .pure (some n)
  else .pure none

/-- A page of rows in its envelope. -/
def fetchPage (s : Schema) (storage : Storage) (p : Prepared) (kind : PageKind)
    (arguments : Arguments) : Traced Value :=
  match PageRequest.ofArguments kind arguments s.registry.settings.defaultPerPage with
  | .error e => .fail (.page e)
  | .ok page =>
    (fetchTotal storage page p.query).andThen fun total =>
      let query := (p.query.withLimit page.limit).withOffset page.offset
      (s.fetchRows storage p query id).andThen fun rows => .pure (page.envelope rows total)

/-- All rows in a list. -/
def fetchList (s : Schema) (storage : Storage) (p : Prepared) : Traced Value :=
  (s.fetchRows storage p p.query id).andThen fun rows => .pure (.array (rows.map .object))

/-- The first row, or null where the type allows it. -/
def fetchOne (s : Schema) (storage : Storage) (p : Prepared) (name : String) (type : TypeRef) :
    Traced Value :=
  (s.fetchRows storage p (p.query.withLimit 1) (·.take 1)).andThen fun rows =>
    match rows with
    | row :: _ => .pure (.object row)
    | [] => if type.isRequired then .fail (.noMatchingRow name type.text) else .pure .null

/-- The value of a root field as its type says, before it is shaped. -/
def fetchValue (s : Schema) (storage : Storage) (field : RootField) (p : Prepared)
    (r : ResponseField) : Traced Value :=
  match s.registry.envelope? field.type.namedType with
  | some (kind, _) => s.fetchPage storage p kind r.node.arguments
  | none =>
    if field.type.isList then s.fetchList storage p
    else s.fetchOne storage p r.node.name field.type

/-! ## Answering root fields -/

/-- The value of a root field, and the errors of the fields below it. -/
def resolveRoot (s : Schema) (storage : Storage) (r : ResponseField) : Traced Shaped :=
  match s.field? r.node.name with
  | none => .fail (.unknownRootField queryType r.node.name)
  | some field =>
    match s.prepare field r with
    | .error e => .fail e
    | .ok p =>
      (s.fetchValue storage field p r).andThen fun value =>
        match Shaper.shape ⟨s.registry, s.services⟩ field.type.namedType value r.children with
        | .error e => .fail (.shape e)
        | .ok shaped => .pure shaped

/-- The error of a field below a root field, as the client sees it. -/
def fieldErrorResponse (s : Schema) (key : String) (e : FieldError) : ResponseError :=
  ((ExecutionError.bind e.error).response s.registry.settings.debug).withLocation e.location
    |>.withPath (.key key :: e.path)

/-- The error of a root field that failed, as the client sees it. -/
def rootErrorResponse (s : Schema) (r : ResponseField) (e : ExecutionError) : ResponseError :=
  (e.response s.registry.settings.debug).withLocation r.node.location |>.withPath [.key r.key]

/-- What a root field contributes to the response. -/
structure RootAnswer where
  calls : List StorageCall
  value : Value
  errors : List ResponseError

/-- Answers a root field. -/
def answerRoot (s : Schema) (storage : Storage) (r : ResponseField) : RootAnswer :=
  if r.node.name = FieldNode.typename then ⟨[], .string queryType, []⟩
  else
    let t := s.resolveRoot storage r
    match t.outcome with
    | .ok shaped => ⟨t.calls, shaped.value, shaped.errors.map (s.fieldErrorResponse r.key)⟩
    | .error e => ⟨t.calls, .null, [s.rootErrorResponse r e]⟩

/-- Answers root fields in order. -/
def answerAll (s : Schema) (storage : Storage) (nodes : List FieldNode) : Execution :=
  let answers := (FieldNode.grouped nodes).map fun r => (r.key, s.answerRoot storage r)
  ⟨answers.flatMap (·.2.calls),
    some (.object (answers.map fun (key, a) => (key, a.value))),
    answers.flatMap (·.2.errors)⟩

/-- The fields that a request asks for. -/
def requestedFields (s : Schema) (request : Request) : Except OperationError (List FieldNode) :=
  Document.expandText request.query s.targetType? queryType request.operationName
    request.variableValues

/-- Executes a request. -/
def execute (s : Schema) (storage : Storage) (request : Request) : Execution :=
  match s.requestedFields request with
  | .error e => ⟨[], .rejected e.response⟩
  | .ok nodes => s.answerAll storage nodes

end Schema

end GraphProjection
