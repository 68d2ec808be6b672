import GraphProjection.Proofs.Expansion
import GraphProjection.Proofs.Narrowing.RootFields

/-!
# Narrowing is not noticed

The strategy of a root field decides how many columns are fetched, and nothing else: under any two
choices of strategies a request has the same response, data and errors
(`Schema.response_withStrategies`).  It takes a storage that narrows whole rows, and a request
whose fields come from the storage.

A root field is looked at in `outcome_resolveField_eq`; what is left is that strategies are not
asked for anywhere else.
-/

namespace GraphProjection

open FieldNode

namespace Schema

/-- A schema with other strategies, by the names of the root fields. -/
def withStrategies (s : Schema) (pick : String → Strategy) : Schema :=
  { s with fields := s.fields.map fun field => field.withStrategy (pick field.declaration.name) }

/-! ## What strategies do not touch -/

lemma field?_withStrategies (s : Schema) (pick : String → Strategy) (name : String) :
    (s.withStrategies pick).field? name =
      (s.field? name).map fun field => field.withStrategy (pick field.declaration.name) := by
  rw [field?, withStrategies, List.find?_map, field?]
  rfl

lemma targetType?_withStrategies (s : Schema) (pick : String → Strategy) :
    (s.withStrategies pick).targetType? = s.targetType? := by
  funext parent field
  rw [targetType?, targetType?, field?_withStrategies, Option.map_map]
  rfl

/-- The fields that a request asks for depend on the types of the root fields alone. -/
lemma requestedFields_withStrategies (s : Schema) (pick : String → Strategy)
    (request : Request) :
    (s.withStrategies pick).requestedFields request = s.requestedFields request := by
  rw [requestedFields, requestedFields, targetType?_withStrategies]

lemma resolveRoot_withStrategies (s : Schema) (pick : String → Strategy) (storage : Storage)
    (r : ResponseField) :
    (s.withStrategies pick).resolveRoot storage r =
      match s.field? r.node.name with
      | none => .fail (.unknownRootField queryType r.node.name)
      | some field =>
        s.resolveField storage (field.withStrategy (pick field.declaration.name)) r := by
  rw [resolveRoot_eq, field?_withStrategies]
  cases s.field? r.node.name with
  | none => rfl
  | some field => rfl

/-! ## Responses -/

variable {s : Schema} {storage : Storage} {pick pick' : String → Strategy}

/-- Outcomes that are the same are answered by the same value and the same errors, as long as both
schemas show the causes of internal errors or neither does. -/
theorem answerRoot_of_outcome_eq {a b : Schema} {r : ResponseField}
    (hdebug : a.registry.settings.debug = b.registry.settings.debug)
    (h : (a.resolveRoot storage r).outcome = (b.resolveRoot storage r).outcome) :
    (a.answerRoot storage r).value = (b.answerRoot storage r).value ∧
      (a.answerRoot storage r).errors = (b.answerRoot storage r).errors := by
  rw [answerRoot, answerRoot]
  by_cases htypename : r.node.name = typename
  · rw [if_pos htypename, if_pos htypename]
    exact ⟨rfl, rfl⟩
  · rw [if_neg htypename, if_neg htypename]
    simp only [h]
    cases (b.resolveRoot storage r).outcome with
    | error e =>
      refine ⟨rfl, ?_⟩
      show [a.rootErrorResponse r e] = [b.rootErrorResponse r e]
      rw [rootErrorResponse, rootErrorResponse, hdebug]
    | ok shaped =>
      refine ⟨rfl, List.map_congr_left fun e _ => ?_⟩
      rw [fieldErrorResponse, fieldErrorResponse, hdebug]

lemma answerRoot_withStrategies {r : ResponseField}
    (h : ((s.withStrategies pick).resolveRoot storage r).outcome =
      ((s.withStrategies pick').resolveRoot storage r).outcome) :
    ((s.withStrategies pick).answerRoot storage r).value =
        ((s.withStrategies pick').answerRoot storage r).value ∧
      ((s.withStrategies pick).answerRoot storage r).errors =
        ((s.withStrategies pick').answerRoot storage r).errors :=
  answerRoot_of_outcome_eq rfl h

/-- Root fields that are answered by the same values and errors make the same response. -/
lemma response_answerAll_congr {a b : Schema} {nodes : List FieldNode}
    (h : ∀ r ∈ grouped nodes, (a.answerRoot storage r).value = (b.answerRoot storage r).value ∧
      (a.answerRoot storage r).errors = (b.answerRoot storage r).errors) :
    (a.answerAll storage nodes).response = (b.answerAll storage nodes).response := by
  have hvalues : (grouped nodes).map (fun r => (r.key, (a.answerRoot storage r).value)) =
      (grouped nodes).map fun r => (r.key, (b.answerRoot storage r).value) :=
    List.map_congr_left fun r hr => congrArg (Prod.mk r.key) (h r hr).1
  have herrors : (grouped nodes).flatMap (fun r => (a.answerRoot storage r).errors) =
      (grouped nodes).flatMap fun r => (b.answerRoot storage r).errors :=
    List.flatMap_congr fun r hr => (h r hr).2
  rw [answerAll, answerAll]
  simp only [List.map_map, List.flatMap_map]
  show Response.mk (some (.object ((grouped nodes).map
      fun r => (r.key, (a.answerRoot storage r).value)))) _ = _
  rw [hvalues, herrors]
  rfl

/-- A selection on the root type is read from the storage: the fields that are answered under one
key are one field, at every depth, and the fields that are requested of registered types are
neither computed by resolvers nor marked as not selectable. -/
structure ReadsStorage (s : Schema) (nodes : List FieldNode) : Prop where
  coherent : Coherent nodes
  stored : ∀ r ∈ grouped nodes, ∀ field, s.field? r.node.name = some field →
    s.registry.FromStorage field.type.namedType r.children

/-- It is enough to look at all fields of all types, and at what is requested. -/
lemma ReadsStorage.of_check {n : Nat} {request : Request} {nodes : List FieldNode}
    (hstored : s.registry.allDescribed (fun t => t.fields.all (·.isStored)) = true)
    (hcoherent : (s.requestedFields request).toOption.all (coherentTo n) = true)
    (h : s.requestedFields request = .ok nodes) : s.ReadsStorage nodes := by
  rw [h] at hcoherent
  exact ⟨.of_coherentTo hcoherent, fun _ _ _ _ => .of_isStored hstored _ _⟩

/-- **Narrowing is only an optimisation.**  Whichever strategies the root fields of a schema have,
a request has the same response, the same data and the same errors.

Hooks and constraints may filter, add expressions and even replace the columns, but not register
relations: those would be matched by keys that no selection fetches (`response_ne_hookedSchema`).
The registry may hold wrong declarations beside those that it describes; a request that meets one
of them fails in the same way under every strategy. -/
theorem response_withStrategies (hr : s.registry.Narrowable) (hhooks : s.HooksLoadNothing)
    {whole : WholeRows} {computed : Row → List (String × String) → String → Value}
    (hs : storage.Narrows whole computed) (request : Request)
    (hrequest : ∀ nodes, s.requestedFields request = .ok nodes → s.ReadsStorage nodes)
    (pick pick' : String → Strategy) :
    ((s.withStrategies pick).execute storage request).response =
      ((s.withStrategies pick').execute storage request).response := by
  rw [execute, execute, requestedFields_withStrategies, requestedFields_withStrategies]
  cases hnodes : s.requestedFields request with
  | error e => rfl
  | ok nodes =>
    obtain ⟨hcoherent, hstored⟩ := hrequest nodes hnodes
    have hargs : ArgumentsDistinct nodes := Document.argumentsDistinct_of_expandText hnodes
    refine response_answerAll_congr fun r hmem => answerRoot_withStrategies ?_
    rw [resolveRoot_withStrategies, resolveRoot_withStrategies]
    cases hfield : s.field? r.node.name with
    | none => rfl
    | some field =>
      have hin : field ∈ s.fields := List.mem_of_find?_eq_some hfield
      exact outcome_resolveField_eq hr hhooks hs hin (hcoherent.children hmem)
        (hargs.children hmem) (hstored r hmem field hfield) _ _

/-! ## Posts in a list -/

/-- Posts, all of them or those of a title. -/
def blogSchema : Schema where
  registry := Shaper.blog
  services := fun _ => none
  fields := [⟨{ name := "posts", type := "[Post!]!", table := "posts",
                filters := [("title", "headline")] }, .list (.named "Post" true) true⟩]

/-- A post and its comment. -/
def blogRows : WholeRows := fun table _ _ _ =>
  if table = "posts" then
    .ok [[("id", .int 1), ("headline", .string "Rows"), ("draft", .bool false)]]
  else .ok [[("id", .int 10), ("body", .string "First"), ("post_id", .int 1)]]

/-- The storage of the post and its comment. -/
def blogStorage : Storage := blogRows.storage fun _ _ _ => .null

/-- The titles of posts and the bodies of their comments. -/
def blogRequest : Request where
  query := "\x7b posts \x7b title comments \x7b data \x7b body \x7d total \x7d \x7d \x7d"

lemma narrowable_blog : Shaper.blog.Narrowable where
  envelopes := Shaper.envelopesApart_blog
  slots := .of_disjoint ["comments"] (by decide +kernel) (by decide +kernel)
  privacy := Shaper.privacyRespectsSame_blog
  constraints := Registry.constraintsLoadNothing_of_isNone (by decide +kernel)

lemma readsStorage_blogRequest (nodes : List FieldNode)
    (h : blogSchema.requestedFields blogRequest = .ok nodes) : blogSchema.ReadsStorage nodes :=
  .of_check (n := 4) (by decide +kernel) (by decide +kernel) h

/-- The columns that the calls for a request ask for. -/
def askedColumns (e : Execution) : List (List String) :=
  e.calls.map fun
    | .count query => query.columns
    | .fetch query => query.columns

/-- The post is answered alike whether two of its columns are fetched or all of them. -/
theorem response_withStrategies_blog :
    ((blogSchema.withStrategies fun _ => .selectFields).execute blogStorage blogRequest).response =
        ((blogSchema.withStrategies fun _ => .allColumns).execute blogStorage
          blogRequest).response ∧
      askedColumns ((blogSchema.withStrategies fun _ => .selectFields).execute blogStorage
        blogRequest) =
        [["posts.headline", "posts.id"], ["comments.body", "comments.post_id"]] ∧
      askedColumns ((blogSchema.withStrategies fun _ => .allColumns).execute blogStorage
        blogRequest) = [[], []] := by
  have hhooks : blogSchema.HooksLoadNothing := by
    intro field hfield hook hhook
    rw [List.mem_singleton.1 hfield] at hhook
    cases hhook
  refine ⟨?_, by decide +kernel, by decide +kernel⟩
  exact response_withStrategies narrowable_blog hhooks (WholeRows.narrows_storage blogRows _)
    blogRequest readsStorage_blogRequest _ _

/-! ## A hook that is noticed -/

/-- Posts with a hook that loads what was drafted of them under the name of their comments. -/
def hookedSchema : Schema where
  registry := Shaper.blog
  services := fun _ => none
  fields := [⟨{ name := "posts", type := "[Post!]!", table := "posts",
                hook := some fun _ =>
                  [.load ⟨"comments", "drafts", some "drafts", "draft", "kept", true⟩ []] },
    .list (.named "Post" true) true⟩]

/-- The post and its comment, and what was drafted. -/
def draftedRows : WholeRows := fun table conditions limit offset =>
  if table = "drafts" then .ok [[("body", .string "Early"), ("kept", .bool false)]]
  else blogRows table conditions limit offset

/-- Without `HooksLoadNothing` strategies are noticed: no selection of a post fetches the column
`draft`, by which the hook's relation is matched. -/
theorem response_ne_hookedSchema :
    ((hookedSchema.withStrategies fun _ => .selectFields).execute
        (draftedRows.storage fun _ _ _ => .null) blogRequest).response ≠
      ((hookedSchema.withStrategies fun _ => .allColumns).execute
        (draftedRows.storage fun _ _ _ => .null) blogRequest).response := by
  decide +kernel

end Schema

end GraphProjection
