import GraphProjection.Proofs.Forcing.Policies
import GraphProjection.Proofs.Narrowing

/-!
# Causes that are hidden

The causes of internal errors are shown when the settings say so, and then under one key of the
extensions.  Two comparisons of whole executions say that they are shown nowhere else.

`Storage.SameButMessages` compares two storages that give the same answers and fail at the same
queries, but may say something else when they do.  Whatever is computed with them makes the same
calls and ends alike (`Traced.SameButMessages`), up to what was said, and that is left out of a
response without debugging (`ExecutionError.response_unspoken`).

`Schema.withDebug` compares a schema with the same one that shows causes.  No step on the way to a
response looks at that setting (`Schema.resolveRoot_withDebug`), only the errors at its end do, and
there `ResponseError.withoutDebug` takes back what was added.

Main statement: **`execute_of_debug_eq_false`**.
-/

namespace GraphProjection

open FieldNode

/-! ## Internal errors -/

namespace ExecutionError

/-- The errors that are the server's own: parameters that cannot be bound, declarations that are
wrong, a storage that fails, and values that cannot be shaped. -/
inductive IsInternal : ExecutionError → Prop
  | bind (e : BindError) : IsInternal (.bind e)
  | registry (e : RegistryError) : IsInternal (.projection (.registry e))
  | storage (e : StorageError) : IsInternal (.storage e)
  | shape (e : ShapeError) : IsInternal (.shape e)

lemma IsInternal.code_eq {e : ExecutionError} (h : e.IsInternal) :
    e.code = .internalServerError := by
  cases h <;> rfl

lemma IsInternal.response_eq {e : ExecutionError} (h : e.IsInternal) :
    e.response false = .internal := by
  rw [response, h.code_eq]
  rfl

/-- An error that is shown as an internal one is shown as nothing else. -/
lemma response_eq_internal {e : ExecutionError}
    (h : (e.response false).code = .internalServerError) : e.response false = .internal := by
  unfold response at h ⊢
  cases hcode : e.code with
  | internalServerError => rfl
  | badRequest | operationParsingError | operationValidationError =>
    rw [hcode] at h
    cases h

/-- The error without what the storage said. -/
def unspoken : ExecutionError → ExecutionError
  | .storage _ => .storage ⟨""⟩
  | e => e

theorem response_unspoken (e : ExecutionError) :
    e.unspoken.response false = e.response false := by
  cases e <;> rfl

end ExecutionError

/-! ## Storages that say something else when they fail -/

/-- Two storages give the same answers and fail at the same queries, whatever they say when they
do. -/
structure Storage.SameButMessages (a b : Storage) : Prop where
  count : ∀ query, (a.count query).toOption = (b.count query).toOption
  fetch : ∀ query, (a.fetch query).toOption = (b.fetch query).toOption

namespace Traced

variable {α β : Type}

/-- Two computations make the same calls and end in the same value or the same error, whatever a
storage said. -/
inductive SameButMessages : Traced α → Traced α → Prop
  | ok (calls : List StorageCall) (a : α) : SameButMessages ⟨calls, .ok a⟩ ⟨calls, .ok a⟩
  | error (calls : List StorageCall) {e e' : ExecutionError} (h : e.unspoken = e'.unspoken) :
      SameButMessages ⟨calls, .error e⟩ ⟨calls, .error e'⟩

lemma SameButMessages.refl (t : Traced α) : t.SameButMessages t := by
  obtain ⟨calls, outcome⟩ := t
  cases outcome with
  | ok a => exact .ok calls a
  | error e => exact .error calls rfl

lemma SameButMessages.after (calls : List StorageCall) {t u : Traced α}
    (h : t.SameButMessages u) :
    SameButMessages ⟨calls ++ t.calls, t.outcome⟩ ⟨calls ++ u.calls, u.outcome⟩ := by
  cases h with
  | ok later a => exact .ok _ a
  | error later h => exact .error _ h

lemma SameButMessages.andThen {t u : Traced α} (h : t.SameButMessages u) {f g : α → Traced β}
    (hnext : ∀ a, (f a).SameButMessages (g a)) :
    (t.andThen f).SameButMessages (u.andThen g) := by
  cases h with
  | ok calls a => exact (hnext a).after calls
  | error calls h => exact .error calls h

/-- One call, answered by storages that differ in what they say. -/
lemma sameButMessages_answered (call : StorageCall) {a b : Except StorageError α}
    (h : a.toOption = b.toOption) :
    SameButMessages ⟨[call], Storage.answered a⟩ ⟨[call], Storage.answered b⟩ := by
  cases a with
  | ok value =>
    cases b with
    | ok value' =>
      cases h
      exact .ok _ value
    | error e => cases h
  | error e =>
    cases b with
    | ok value => cases h
    | error e' => exact .error _ rfl

end Traced

section Storages

open Traced

variable {a b : Storage}

lemma Storage.SameButMessages.traceCount (h : a.SameButMessages b) (query : SelectQuery) :
    (a.traceCount query).SameButMessages (b.traceCount query) :=
  sameButMessages_answered _ (h.count query)

lemma Storage.SameButMessages.traceFetch (h : a.SameButMessages b) (query : SelectQuery) :
    (a.traceFetch query).SameButMessages (b.traceFetch query) :=
  sameButMessages_answered _ (h.fetch query)

namespace Stitching

mutual

lemma sameButMessages_loadQuery (h : a.SameButMessages b) (defaultPerPage : Nat) :
    (query : SelectQuery) → (projection : Option Projection) → (rows : List Row) →
    (loadQuery a defaultPerPage query projection rows).SameButMessages
      (loadQuery b defaultPerPage query projection rows)
  | ⟨_, _, _, _, _, _, loads⟩, projection, rows => by
    simp only [loadQuery]
    exact sameButMessages_loadAll h defaultPerPage loads projection rows

lemma sameButMessages_loadAll (h : a.SameButMessages b) (defaultPerPage : Nat) :
    (loads : List (RelationTarget × SelectQuery)) → (projection : Option Projection) →
    (rows : List Row) →
    (loadAll a defaultPerPage loads projection rows).SameButMessages
      (loadAll b defaultPerPage loads projection rows)
  | [], projection, rows => by
    simp only [loadAll]
    exact .refl _
  | (target, query) :: rest, projection, rows => by
    simp only [loadAll]
    refine (h.traceFetch (relatedQuery target query rows)).andThen fun fetched => ?_
    refine (sameButMessages_loadQuery h defaultPerPage query _ fetched).andThen fun related => ?_
    split
    · exact .refl _
    · exact sameButMessages_loadAll h defaultPerPage rest projection _

end

end Stitching

namespace Schema

lemma sameButMessages_fetchRows (h : a.SameButMessages b) (s : Schema) (p : Prepared)
    (query : SelectQuery) (keep : List Row → List Row) :
    (s.fetchRows a p query keep).SameButMessages (s.fetchRows b p query keep) :=
  (h.traceFetch query).andThen fun _ => Stitching.sameButMessages_loadQuery h _ query _ _

lemma sameButMessages_fetchTotal (h : a.SameButMessages b) (page : PageRequest)
    (query : SelectQuery) :
    (fetchTotal a page query).SameButMessages (fetchTotal b page query) := by
  unfold fetchTotal
  split
  · exact (h.traceCount query).andThen fun _ => .refl _
  · exact .refl _

/-- The value of a root field is fetched alike. -/
lemma sameButMessages_fetchValue (h : a.SameButMessages b) (s : Schema) (field : RootField)
    (p : Prepared) (r : ResponseField) :
    (s.fetchValue a field p r).SameButMessages (s.fetchValue b field p r) := by
  unfold fetchValue
  split
  · unfold fetchPage
    split
    · exact .refl _
    · refine (sameButMessages_fetchTotal h _ p.query).andThen fun total => ?_
      exact (sameButMessages_fetchRows h s p _ id).andThen fun _ => .refl _
  · split
    · exact (sameButMessages_fetchRows h s p p.query id).andThen fun _ => .refl _
    · exact (sameButMessages_fetchRows h s p _ _).andThen fun _ => .refl _

lemma sameButMessages_resolveRoot (h : a.SameButMessages b) (s : Schema) (r : ResponseField) :
    (s.resolveRoot a r).SameButMessages (s.resolveRoot b r) := by
  unfold resolveRoot
  split
  · exact .refl _
  · split
    · exact .refl _
    · exact (sameButMessages_fetchValue h s _ _ r).andThen fun _ => .refl _

end Schema

end Storages

namespace Schema

variable {s : Schema}

/-- Without debugging, what the storage said has no part in the answer. -/
lemma answerRoot_of_sameButMessages (hdebug : s.registry.settings.debug = false) {a b : Storage}
    (h : a.SameButMessages b) (r : ResponseField) : s.answerRoot a r = s.answerRoot b r := by
  unfold answerRoot
  split
  · rfl
  · have hsame := sameButMessages_resolveRoot h s r
    generalize s.resolveRoot a r = t at hsame
    generalize s.resolveRoot b r = u at hsame
    cases hsame with
    | ok calls shaped => rfl
    | @error calls e e' he =>
      have hresponse : e.response false = e'.response false := by
        rw [← e.response_unspoken, he, e'.response_unspoken]
      simp only [rootErrorResponse, hdebug, hresponse]

lemma execute_of_sameButMessages (hdebug : s.registry.settings.debug = false) {a b : Storage}
    (h : a.SameButMessages b) (request : Request) :
    s.execute a request = s.execute b request := by
  have hanswers : s.answerRoot a = s.answerRoot b :=
    funext fun r => answerRoot_of_sameButMessages hdebug h r
  unfold execute
  split
  · rfl
  · rw [answerAll, answerAll, hanswers]

/-! ## What is left of an internal error -/

/-- Without debugging every internal error of an answer is the same, up to its place. -/
lemma eq_internal_of_mem_answerRoot (hdebug : s.registry.settings.debug = false)
    {storage : Storage} {r : ResponseField} {e : ResponseError}
    (he : e ∈ (s.answerRoot storage r).errors) (hcode : e.code = .internalServerError) :
    ∃ location path, e = (ResponseError.internal.withLocation location).withPath path := by
  unfold answerRoot at he
  split at he
  · cases he
  · simp only at he
    split at he
    · next shaped _ =>
      obtain ⟨fault, -, rfl⟩ := List.mem_map.1 he
      refine ⟨fault.location, .key r.key :: fault.path, ?_⟩
      rw [fieldErrorResponse, hdebug, (ExecutionError.IsInternal.bind fault.error).response_eq]
    · next cause _ =>
      cases List.mem_singleton.1 he
      refine ⟨r.node.location, [.key r.key], ?_⟩
      rw [rootErrorResponse, hdebug] at hcode ⊢
      rw [ExecutionError.response_eq_internal hcode]

lemma eq_internal_of_mem_execute (hdebug : s.registry.settings.debug = false)
    {storage : Storage} {request : Request} {e : ResponseError}
    (he : e ∈ (s.execute storage request).response.errors)
    (hcode : e.code = .internalServerError) :
    ∃ location path, e = (ResponseError.internal.withLocation location).withPath path := by
  unfold execute at he
  split at he
  · next rejection _ =>
    cases List.mem_singleton.1 he
    cases rejection <;> cases hcode
  · simp only [answerAll, List.flatMap_map] at he
    obtain ⟨r, -, hr⟩ := List.mem_flatMap.1 he
    exact eq_internal_of_mem_answerRoot hdebug hr hcode

end Schema

/-! ## With and without debugging -/

/-- A registry that shows the causes of internal errors, or does not. -/
def Registry.withDebug (r : Registry) (debug : Bool) : Registry :=
  { r with settings := { r.settings with debug := debug } }

/-- A schema that shows the causes of internal errors, or does not. -/
def Schema.withDebug (s : Schema) (debug : Bool) : Schema :=
  { s with registry := s.registry.withDebug debug }

/-- An error without the cause that debugging adds to it. -/
def ResponseError.withoutDebug (e : ResponseError) : ResponseError :=
  { e with extensions := e.extensions.filter (·.1 != ExecutionError.debugKey) }

/-- A response without the causes that debugging adds to it. -/
def Response.withoutDebug (r : Response) : Response :=
  { r with errors := r.errors.map (·.withoutDebug) }

namespace ExecutionError

/-- Debugging adds nothing but the cause. -/
lemma withoutDebug_response (e : ExecutionError) (debug : Bool) :
    (e.response debug).withoutDebug = e.response false := by
  unfold response
  cases e.code with
  | internalServerError => cases debug <;> rfl
  | badRequest | operationParsingError | operationValidationError => rfl

end ExecutionError

namespace OperationError

lemma withoutDebug_response (e : OperationError) : e.response.withoutDebug = e.response := by
  unfold response
  cases e.location? <;> rfl

end OperationError

namespace Projector

variable (r : Registry) (services : ServiceLocator) (debug : Bool)

lemma projectType_withDebug (t : OutputType) (nodes : List FieldNode) :
    projectType ⟨r.withDebug debug, services⟩ t nodes = projectType ⟨r, services⟩ t nodes := by
  induction hdepth : depths nodes using Nat.strongRecOn generalizing t nodes with
  | _ depth ih =>
    subst hdepth
    -- The recursion is the only place where the two sides are not the same by definition.
    have hbelow : (fun (target : OutputType) (below : List FieldNode)
          (_ : depths below < depths nodes) =>
          projectType ⟨r.withDebug debug, services⟩ target below) =
        fun target below _ => projectType ⟨r, services⟩ target below :=
      funext fun target => funext fun below => funext fun hlt => ih _ hlt target below rfl
    rw [projectType, projectType, hbelow]
    rfl

/-- Selections are projected in the same way with and without debugging. -/
lemma project_withDebug (type : String) (nodes : List FieldNode) :
    project ⟨r.withDebug debug, services⟩ type nodes = project ⟨r, services⟩ type nodes := by
  unfold project
  simp only [projectType_withDebug]
  rfl

end Projector

namespace Schema

variable (s : Schema) (debug : Bool)

lemma prepare_withDebug (field : RootField) (r : ResponseField) :
    (s.withDebug debug).prepare field r = s.prepare field r := by
  unfold prepare
  have hproject := Projector.project_withDebug s.registry s.services debug
    field.type.namedType r.children
  simp only [withDebug, hproject]

/-- A root field is resolved in the same way with and without debugging. -/
theorem resolveRoot_withDebug (storage : Storage) (r : ResponseField) :
    (s.withDebug debug).resolveRoot storage r = s.resolveRoot storage r := by
  have hfield : (s.withDebug debug).field? r.node.name = s.field? r.node.name := rfl
  have hfetch : ∀ field p, (s.withDebug debug).fetchValue storage field p r =
      s.fetchValue storage field p r := fun _ _ => rfl
  have hshape : ∀ type v, Shaper.shape ⟨(s.withDebug debug).registry, (s.withDebug debug).services⟩
      type v r.children = Shaper.shape ⟨s.registry, s.services⟩ type v r.children :=
    fun type v => Shaper.shape_withSettings s.registry s.services _ type v r.children
  unfold resolveRoot
  simp only [hfield, prepare_withDebug, hfetch, hshape]

/-- A root field has the same value with and without debugging, after the same calls, and its errors
differ in the causes that are shown. -/
theorem answerRoot_withDebug (hdebug : s.registry.settings.debug = false) (storage : Storage)
    (r : ResponseField) :
    ((s.withDebug debug).answerRoot storage r).calls = (s.answerRoot storage r).calls ∧
      ((s.withDebug debug).answerRoot storage r).value = (s.answerRoot storage r).value ∧
      ((s.withDebug debug).answerRoot storage r).errors.map (·.withoutDebug) =
        (s.answerRoot storage r).errors := by
  -- Where an error is placed does not depend on what it says.
  have hplaced : ∀ (e : ExecutionError) location path,
      ResponseError.withoutDebug (((e.response debug).withLocation location).withPath path) =
        ((e.response false).withLocation location).withPath path := by
    intro e location path
    rw [← e.withoutDebug_response debug]
    rfl
  unfold answerRoot
  split
  · exact ⟨rfl, rfl, rfl⟩
  · rw [resolveRoot_withDebug]
    generalize s.resolveRoot storage r = t
    obtain ⟨calls, outcome⟩ := t
    cases outcome with
    | error e =>
      refine ⟨rfl, rfl, congrArg (fun e => [e]) ?_⟩
      rw [rootErrorResponse, rootErrorResponse, hdebug]
      exact hplaced e _ _
    | ok shaped =>
      refine ⟨rfl, rfl, ?_⟩
      simp only [List.map_map]
      refine List.map_congr_left fun e _ => ?_
      rw [Function.comp_apply, fieldErrorResponse, fieldErrorResponse, hdebug]
      exact hplaced (.bind e.error) _ _

/-- A request makes the same calls with and without debugging, and the responses differ in the
causes that are shown. -/
theorem execute_withDebug (hdebug : s.registry.settings.debug = false) (storage : Storage)
    (request : Request) :
    ((s.withDebug debug).execute storage request).calls = (s.execute storage request).calls ∧
      ((s.withDebug debug).execute storage request).response.withoutDebug =
        (s.execute storage request).response := by
  have hrequested : (s.withDebug debug).requestedFields request = s.requestedFields request := rfl
  unfold execute
  rw [hrequested]
  cases s.requestedFields request with
  | error e =>
    refine ⟨rfl, ?_⟩
    simp only [Response.rejected, Response.withoutDebug, List.map_cons, List.map_nil,
      e.withoutDebug_response]
  | ok nodes =>
    have hanswers := fun r => answerRoot_withDebug s debug hdebug storage r
    simp only [answerAll, Response.withoutDebug, List.flatMap_map, List.map_map,
      List.map_flatMap, Function.comp_def, hanswers, and_self]

/-- **With debugging off, causes stay hidden.**

When the settings of a schema say that causes are not shown, a request makes the same calls and has
the same response with any two storages that answer alike, whatever they say when they fail.  Every
internal error, be it that of a root field or that of a field below, is the same one with the
location of the field and the path to it, and a response holds no other internal errors.  With
debugging on, the request makes the same calls, and the response is the same once the causes are
taken out of the extensions of its errors. -/
theorem execute_of_debug_eq_false {s : Schema} (hdebug : s.registry.settings.debug = false)
    (request : Request) :
    (∀ a b : Storage, a.SameButMessages b → s.execute a request = s.execute b request) ∧
      (∀ (e : ExecutionError) (r : ResponseField), e.IsInternal → s.rootErrorResponse r e =
        (ResponseError.internal.withLocation r.node.location).withPath [.key r.key]) ∧
      (∀ (e : FieldError) (key : String), s.fieldErrorResponse key e =
        (ResponseError.internal.withLocation e.location).withPath (.key key :: e.path)) ∧
      ∀ storage : Storage,
        (∀ e ∈ (s.execute storage request).response.errors, e.code = .internalServerError →
          ∃ location path, e = (ResponseError.internal.withLocation location).withPath path) ∧
        ((s.withDebug true).execute storage request).calls =
          (s.execute storage request).calls ∧
        ((s.withDebug true).execute storage request).response.withoutDebug =
          (s.execute storage request).response := by
  refine ⟨fun a b h => execute_of_sameButMessages hdebug h request, fun e r he => ?_,
    fun e key => ?_, fun storage => ⟨fun e he hcode => ?_, ?_⟩⟩
  · rw [rootErrorResponse, hdebug, he.response_eq]
  · rw [fieldErrorResponse, hdebug, (ExecutionError.IsInternal.bind e.error).response_eq]
  · exact eq_internal_of_mem_execute hdebug he hcode
  · exact execute_withDebug s true hdebug storage request

/-- The storage of posts, where comments cannot be fetched for a reason. -/
def commentlessStorage (reason : String) : Storage where
  count := blogStorage.count
  fetch query :=
    if query.table = "comments" then .error ⟨reason⟩ else blogStorage.fetch query

lemma sameButMessages_commentlessStorage (reason other : String) :
    (commentlessStorage reason).SameButMessages (commentlessStorage other) where
  count _ := rfl
  fetch query := by
    unfold commentlessStorage
    by_cases h : query.table = "comments" <;> simp [h, Except.toOption]

/-- Why the comments of a post cannot be fetched is seen with debugging only. -/
theorem execute_of_debug_eq_false_blog :
    blogSchema.execute (commentlessStorage "disk full") blogRequest =
        blogSchema.execute (commentlessStorage "no such table") blogRequest ∧
      ((blogSchema.withDebug true).execute (commentlessStorage "disk full")
          blogRequest).response.withoutDebug =
        (blogSchema.execute (commentlessStorage "disk full") blogRequest).response ∧
      ((blogSchema.withDebug true).execute (commentlessStorage "disk full")
          blogRequest).response.errors.map
            (fun e => (e.extension? ExecutionError.debugKey).map (·.text)) =
        [some "\"Storage query failed: disk full\""] := by
  have hspec := execute_of_debug_eq_false (s := blogSchema) rfl blogRequest
  refine ⟨hspec.1 _ _ (sameButMessages_commentlessStorage _ _), ?_, by decide +kernel⟩
  exact (hspec.2.2.2 (commentlessStorage "disk full")).2.2

end Schema

end GraphProjection
