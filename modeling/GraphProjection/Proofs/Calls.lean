import GraphProjection.Proofs.Narrowing
import GraphProjection.Proofs.Stitching

/-!
# The calls of a root field

Which calls a root field makes is known before any row is: the count of the rows where its type
asks for a total, the fetch of its own rows, and for every relation below its query one more, with
the relation's own query and the keys of the rows above.  `Schema.plannedCalls` is that list, read
off the prepared query alone, and `PlannedCall.MetBy` says when a call is the one that was planned:
of the rows that came before, a call has nothing but the values that its foreign key is looked for
among.

The relations below a query are the nodes of a tree, each before those below it.  Loading makes one
call per node, whatever the rows are (`forall₂_nodesOf_loadAll`, by induction on the tree with the
rows varying), and so a root field that succeeds makes exactly the calls that were planned.  Main
statement: **`forall₂_plannedCalls`**.
-/

namespace GraphProjection

open Stitching

/-! ## The tree below a query -/

namespace SelectQuery

mutual

/-- The relations below a query, each before those below its own query. -/
def nodes : SelectQuery → List Load
  | ⟨_, _, _, _, _, _, loads⟩ => nodesOf loads

/-- The relations among some, and below them. -/
def nodesOf : List Load → List Load
  | [] => []
  | (target, query) :: rest => (target, query) :: (query.nodes ++ nodesOf rest)

end

lemma nodes_eq (query : SelectQuery) : query.nodes = nodesOf query.eagerLoads := by
  cases query
  rw [nodes]

/-- The relations that steps of narrowing register, each with its query. -/
def registered (edits : List Edit) : List Load :=
  edits.filterMap fun
    | .load target below => some (target, (all target.queriedTable).editAll below)
    | _ => none

lemma eagerLoads_editAll (query : SelectQuery) (edits : List Edit) :
    (query.editAll edits).eagerLoads = query.eagerLoads ++ registered edits := by
  induction edits generalizing query with
  | nil =>
    rw [editAll]
    exact (List.append_nil _).symm
  | cons e rest ih =>
    rw [editAll, ih]
    cases e with
    | select columns => rfl
    | selectRaw expression outputAlias => rfl
    | whereEq column value => rfl
    | load target below =>
      exact List.append_assoc query.eagerLoads [(target, (all target.queriedTable).editAll below)]
        (registered rest)

lemma registered_append (a b : List Edit) :
    registered (a ++ b) = registered a ++ registered b := List.filterMap_append

lemma registered_eq_nil {edits : List Edit} (h : ∀ e ∈ edits, e.isQuiet = true) :
    registered edits = [] := by
  refine List.filterMap_eq_nil_iff.2 fun e he => ?_
  cases e with
  | select columns => rfl
  | selectRaw expression outputAlias => rfl
  | whereEq column value => rfl
  | load target below => cases h _ he

end SelectQuery

/-- The names of the fields of a type, in the order of declaration; a type that is not registered
has none. -/
def Registry.fieldNames (r : Registry) (type : String) : List String :=
  match r.describe type with
  | .ok (some t) => t.fields.map (·.name)
  | _ => []

namespace Projection

/-- The relations of a projection of a type are loaded in the order in which the fields of the type
are declared, each field once at most, and so are the relations below them. -/
inductive InOrder (r : Registry) : String → Projection → Prop
  | intro {type : String} {p : Projection}
      (order : (p.relations.map (·.1.target.field)).Sublist (r.fieldNames type))
      (below : ∀ relation ∈ p.relations, InOrder r relation.1.targetType relation.2) :
      InOrder r type p

variable {r : Registry} {type : String} {p : Projection}

lemma InOrder.of_relations_eq_nil (h : p.relations = []) : InOrder r type p := by
  refine .intro ?_ ?_ <;> rw [h]
  · exact List.nil_sublist _
  · exact fun relation hmem => absurd hmem List.not_mem_nil

lemma InOrder.addColumn (h : InOrder r type p) (column : String) :
    InOrder r type (p.addColumn column) := by
  cases h with
  | intro order below =>
    rw [← Projection.relations_addColumn p column] at order below
    exact .intro order below

lemma InOrder.widened (h : InOrder r type p) : InOrder r type p.widened := by
  induction h with
  | intro order _ ih =>
    refine .intro ?_ ?_ <;> rw [relations_widened]
    · rw [List.map_map]
      exact order
    · intro relation hmem
      obtain ⟨original, horiginal, rfl⟩ := List.mem_map.1 hmem
      exact ih original horiginal

end Projection

namespace Projector

lemma inOrder_of_projectType {x : Projector} {name : String} {t : OutputType}
    {nodes : List FieldNode} {p : Projection} (ht : x.registry.describe name = .ok (some t))
    (h : x.projectType t nodes = .ok p) : p.InOrder x.registry name := by
  refine typed_induction_of_projectType (fun _ _ => .of_relations_eq_nil)
    (fun _ _ column hp => hp.addColumn column) (fun name t nodes p ht h below => ?_) ht h
  refine .intro ?_ below
  rw [Registry.fieldNames, ht]
  exact slots_sublist_of_projectType h

lemma inOrder_of_project {x : Projector} {type : String} {nodes : List FieldNode}
    {p : Projection} (h : x.project type nodes = .ok p) :
    p.InOrder x.registry (itemType (x.registry.envelope? type) type) := by
  rcases project_spec h with rfl | ⟨t, ht, hp⟩
  · exact .of_relations_eq_nil rfl
  · exact inOrder_of_projectType ht hp

end Projector

/-! ## Planned calls -/

/-- A call that is known before there are rows.  The query of a relation still lacks the values
that its foreign key is looked for among. -/
inductive PlannedCall where
  | count (query : SelectQuery)
  | fetch (query : SelectQuery)
  | related (load : Load)

/-- A call is the one that was planned.  Of a relation it is the fetch of the relation's own query
with one more condition, that the foreign key is among some values. -/
inductive PlannedCall.MetBy : PlannedCall → StorageCall → Prop
  | count (query : SelectQuery) : MetBy (.count query) (.count query)
  | fetch (query : SelectQuery) : MetBy (.fetch query) (.fetch query)
  | related (load : Load) (values : List Value) :
      MetBy (.related load) (.fetch (boundQuery load values))

/-! ## Loading relations -/

namespace Stitching

/-- The calls made for some relations are those planned for them. -/
def AsPlanned (loads : List Load) (calls : List StorageCall) : Prop :=
  List.Forall₂ PlannedCall.MetBy ((SelectQuery.nodesOf loads).map .related) calls

mutual

lemma forall₂_nodes_loadQuery (s : Storage) (defaultPerPage : Nat) : (query : SelectQuery) →
    (projection : Option Projection) → (rows done : List Row) →
    (loadAll s defaultPerPage query.eagerLoads projection rows).outcome = .ok done →
    AsPlanned query.eagerLoads (loadAll s defaultPerPage query.eagerLoads projection rows).calls
  | ⟨_, _, _, _, _, _, loads⟩, projection, rows, done => fun h =>
    forall₂_nodesOf_loadAll s defaultPerPage loads projection rows done h

/-- Loading relations makes one call per node of the tree, in its order, however many rows there
are above. -/
theorem forall₂_nodesOf_loadAll (s : Storage) (defaultPerPage : Nat) : (loads : List Load) →
    (projection : Option Projection) → (rows done : List Row) →
    (loadAll s defaultPerPage loads projection rows).outcome = .ok done →
    AsPlanned loads (loadAll s defaultPerPage loads projection rows).calls
  | [], projection, rows, done => fun _ => by
    rw [loadAll]
    exact .nil
  | (target, query) :: rest, projection, rows, done => fun h => by
    obtain ⟨fetched, related, page, -, hbelow, -, hrest, hcalls⟩ := loadAll_cons h
    have hown := forall₂_nodes_loadQuery s defaultPerPage query _ fetched related hbelow
    have hothers := forall₂_nodesOf_loadAll s defaultPerPage rest projection _ done hrest
    rw [AsPlanned, hcalls, SelectQuery.nodesOf, SelectQuery.nodes_eq, List.map_cons,
      List.map_append]
    exact .cons (.related (target, query) _) (List.rel_append hown hothers)

end

end Stitching

/-! ## Root fields -/

lemma PageRequest.kind_of_ofArguments {kind : PageKind} {arguments : Arguments}
    {defaultPerPage : Nat} {page : PageRequest}
    (h : ofArguments kind arguments defaultPerPage = .ok page) : page.kind = kind := by
  -- Two of the three kinds are read alike, by the number of a page.
  have hnumbered : ∀ other perPage, numbered other perPage arguments = .ok page →
      page.kind = other := by
    intro other perPage h
    rw [numbered] at h
    cases hnumber : positive? arguments .page with
    | error e =>
      rw [hnumber] at h
      cases h
    | ok number =>
      rw [hnumber] at h
      change (if _ then _ else _) = _ at h
      split at h
      · cases h
      · cases h
        rfl
  rw [ofArguments] at h
  cases hlimit : positive? arguments .limit with
  | error e =>
    rw [hlimit] at h
    cases h
  | ok limit =>
    rw [hlimit] at h
    cases kind with
    | offset => exact hnumbered .offset _ h
    | simple => exact hnumbered .simple _ h
    | cursor =>
      cases hstart : startOffset arguments with
      | error e =>
        simp only [hstart] at h
        cases h
      | ok offset =>
        simp only [hstart] at h
        cases h
        rfl

namespace Schema

/-- Whether the type of a root field asks for the total of its rows. -/
def asksForTotal (s : Schema) (field : RootField) : Bool :=
  match s.registry.envelope? field.type.namedType with
  | some (kind, _) => kind == .offset
  | none => false

/-- The query of the rows of a root field: a page of them, all of them, or the first. -/
def rowsQuery (s : Schema) (field : RootField) (p : Prepared) (arguments : Arguments) :
    SelectQuery :=
  match s.registry.envelope? field.type.namedType with
  | some (kind, _) =>
    match PageRequest.ofArguments kind arguments s.registry.settings.defaultPerPage with
    | .ok page => (p.query.withLimit page.limit).withOffset page.offset
    | .error _ => p.query
  | none => if field.type.isList then p.query else p.query.withLimit 1

/-- The calls planned for a root field that is prepared: the count if there is one, the fetch, and
one call per relation below the query. -/
def plannedFor (s : Schema) (field : RootField) (p : Prepared) (arguments : Arguments) :
    List PlannedCall :=
  (if s.asksForTotal field then [.count p.query] else []) ++
    .fetch (s.rowsQuery field p arguments) :: p.query.nodes.map .related

/-- The calls planned for a root field.  No storage has a part in them. -/
def plannedCalls (s : Schema) (r : ResponseField) : List PlannedCall :=
  match s.field? r.node.name with
  | none => []
  | some field =>
    match s.prepare field r with
    | .error _ => []
    | .ok p => s.plannedFor field p r.node.arguments

section Fetching

variable {s : Schema} {storage : Storage} {field : RootField} {p : Prepared}

lemma forall₂_fetchRows {query : SelectQuery} {keep : List Row → List Row} {rows : List Row}
    (hloads : query.eagerLoads = p.query.eagerLoads)
    (h : (s.fetchRows storage p query keep).outcome = .ok rows) :
    List.Forall₂ PlannedCall.MetBy (.fetch query :: p.query.nodes.map .related)
      (s.fetchRows storage p query keep).calls := by
  rw [fetchRows] at h ⊢
  obtain ⟨fetched, hfetched, hloaded⟩ := Traced.outcome_andThen_eq_ok_iff.1 h
  rw [loadQuery_eq] at hloaded
  rw [Traced.calls_andThen_of_ok hfetched, loadQuery_eq, SelectQuery.nodes_eq, ← hloads]
  exact .cons (.fetch query) (forall₂_nodesOf_loadAll _ _ _ _ _ _ hloaded)

lemma forall₂_fetchTotal {page : PageRequest} {total : Option Nat}
    (h : (fetchTotal storage page p.query).outcome = .ok total) :
    List.Forall₂ PlannedCall.MetBy (if page.kind == .offset then [.count p.query] else [])
      (fetchTotal storage page p.query).calls := by
  rw [fetchTotal, PageRequest.needsTotal] at h ⊢
  split at h
  · next hoffset =>
    obtain ⟨n, hn, -⟩ := Traced.outcome_andThen_eq_ok_iff.1 h
    rw [if_pos hoffset, if_pos hoffset, Traced.calls_andThen_of_ok hn]
    exact .cons (.count p.query) .nil
  · next hother =>
    rw [if_neg hother, if_neg hother]
    exact .nil

/-- Fetching the value of a root field makes the calls that are planned. -/
lemma forall₂_plannedFor {r : ResponseField} {value : Value}
    (h : (s.fetchValue storage field p r).outcome = .ok value) :
    List.Forall₂ PlannedCall.MetBy (s.plannedFor field p r.node.arguments)
      (s.fetchValue storage field p r).calls := by
  rw [plannedFor, asksForTotal, rowsQuery]
  rw [fetchValue] at h ⊢
  -- A page comes with its total, which is counted first; a list and a single row are fetched alone.
  cases henvelope : s.registry.envelope? field.type.namedType with
  | some pair =>
    obtain ⟨kind, item⟩ := pair
    simp only [henvelope, fetchPage] at h ⊢
    cases hpage : PageRequest.ofArguments kind r.node.arguments
        s.registry.settings.defaultPerPage with
    | error e =>
      rw [hpage] at h
      cases h
    | ok page =>
      simp only [hpage] at h ⊢
      obtain ⟨total, htotal, h⟩ := Traced.outcome_andThen_eq_ok_iff.1 h
      obtain ⟨rows, hrows, -⟩ := Traced.outcome_andThen_eq_ok_iff.1 h
      rw [Traced.calls_andThen_of_ok htotal, Traced.calls_andThen_of_nil fun rows => rfl,
        ← PageRequest.kind_of_ofArguments hpage]
      exact List.rel_append (forall₂_fetchTotal htotal) (forall₂_fetchRows rfl hrows)
  | none =>
    simp only [henvelope] at h ⊢
    rw [if_neg Bool.false_ne_true, List.nil_append]
    split at h
    · next hlist =>
      rw [fetchList] at h
      obtain ⟨rows, hrows, -⟩ := Traced.outcome_andThen_eq_ok_iff.1 h
      rw [if_pos hlist, if_pos hlist, fetchList, Traced.calls_andThen_of_nil fun rows => rfl]
      exact forall₂_fetchRows rfl hrows
    · next hone =>
      rw [fetchOne] at h
      obtain ⟨rows, hrows, -⟩ := Traced.outcome_andThen_eq_ok_iff.1 h
      rw [if_neg hone, if_neg hone, fetchOne, Traced.calls_andThen_of_nil]
      · exact forall₂_fetchRows rfl hrows
      · rintro (- | ⟨row, rest⟩)
        · cases field.type.isRequired <;> rfl
        · rfl

end Fetching

/-- What a root field that succeeds was prepared with; its value is fetched, with all the calls that
are made, and then shaped. -/
theorem exists_fetchValue_of_resolveRoot {s : Schema} {storage : Storage} {r : ResponseField}
    {shaped : Shaped} (h : (s.resolveRoot storage r).outcome = .ok shaped) :
    ∃ field p value, s.field? r.node.name = some field ∧ s.prepare field r = .ok p ∧
      (s.fetchValue storage field p r).outcome = .ok value ∧
      (s.resolveRoot storage r).calls = (s.fetchValue storage field p r).calls ∧
      Shaper.shape ⟨s.registry, s.services⟩ field.type.namedType value r.children =
        .ok shaped := by
  rw [resolveRoot_eq] at h ⊢
  cases hfield : s.field? r.node.name with
  | none =>
    rw [hfield] at h
    cases h
  | some field =>
    rw [hfield] at h
    simp only [resolveField] at h ⊢
    cases hp : s.prepare field r with
    | error e =>
      rw [hp] at h
      cases h
    | ok p =>
      rw [hp] at h
      obtain ⟨value, hvalue, hshaped⟩ := Traced.outcome_andThen_eq_ok_iff.1 h
      -- Shaping makes no calls, so all calls of the field are those of fetching.
      refine ⟨field, p, value, rfl, hp, hvalue, Traced.calls_andThen_of_nil fun value => ?_, ?_⟩
      · split <;> rfl
      · split at hshaped
        · cases hshaped
        · next own hown =>
          cases hshaped
          exact hown

/-- **One query per relation, whatever the data.**  A root field that succeeds makes the calls that
are planned for it and no others, in their order: whether its rows are counted first depends on its
type, and below its query every relation of the tree is fetched once, be there many rows above it
or none.

The relations of the tree are those of the projection, at every depth in the order in which the
fields of the type are declared, and behind them those that the hook registers. -/
theorem forall₂_plannedCalls (s : Schema) (storage : Storage) {r : ResponseField}
    {shaped : Shaped} (htypename : r.node.name ≠ FieldNode.typename)
    (h : (s.resolveRoot storage r).outcome = .ok shaped) :
    List.Forall₂ PlannedCall.MetBy (s.plannedCalls r) (s.answerRoot storage r).calls ∧
      ∃ field p bound, s.field? r.node.name = some field ∧ s.prepare field r = .ok p ∧
        bind field.declaration.parameters r.node.arguments s.services = .ok bound ∧
        p.query.eagerLoads =
          p.projection.loads ++ SelectQuery.registered (hookEdits field.declaration bound) ∧
        p.projection.InOrder s.registry
          (Projector.itemType (s.registry.envelope? field.type.namedType)
            field.type.namedType) := by
  obtain ⟨field, p, value, hfield, hp, hvalue, hcalls, -⟩ := exists_fetchValue_of_resolveRoot h
  refine ⟨?_, field, p, ?_⟩
  · rw [calls_answerRoot htypename, hcalls, plannedCalls, hfield]
    simp only [hp]
    exact forall₂_plannedFor hvalue
  · obtain ⟨bound, q, hbound, hq, rfl⟩ := prepare_eq_ok_iff.1 hp
    refine ⟨bound, hfield, hp, hbound, ?_, ?_⟩
    · -- Conditions from the arguments load nothing, so what is loaded comes from the projection and
      -- the hook.
      rw [prepared, Projection.applyTo, SelectQuery.eagerLoads_editAll, Projection.editAll_edits,
        SelectQuery.registered_append, SelectQuery.registered_eq_nil (isQuiet_filterEdits _ _)]
      rfl
    · have horder := Projector.inOrder_of_project hq
      rw [prepared, rootProjection]
      split
      · exact horder.widened
      · exact horder

/-- The posts of the blog, in numbered pages. -/
def pagedBlog : Schema where
  registry := Shaper.blog
  services := fun _ => none
  fields := [⟨{ name := "posts", type := "PostPagination!", table := "posts" },
    .named "PostPagination" true⟩]

/-- The titles of a page of posts, with the bodies of their comments. -/
def pagedPosts : ResponseField :=
  ⟨Shaper.plainNode "posts" [], [Shaper.plainNode "data" Shaper.blogSelection]⟩

/-- Three calls are planned for a page of posts, and three are made, for one post and for none. -/
theorem forall₂_plannedCalls_pagedPosts :
    (pagedBlog.plannedCalls pagedPosts).length = 3 ∧
      List.Forall₂ PlannedCall.MetBy (pagedBlog.plannedCalls pagedPosts)
        (pagedBlog.answerRoot blogStorage pagedPosts).calls ∧
      List.Forall₂ PlannedCall.MetBy (pagedBlog.plannedCalls pagedPosts)
        (pagedBlog.answerRoot Registry.emptyStorage pagedPosts).calls := by
  have htypename : pagedPosts.node.name ≠ FieldNode.typename := by decide
  have hmet (storage : Storage)
      (hok : (pagedBlog.resolveRoot storage pagedPosts).outcome.isOk = true) :
      List.Forall₂ PlannedCall.MetBy (pagedBlog.plannedCalls pagedPosts)
        (pagedBlog.answerRoot storage pagedPosts).calls := by
    cases houtcome : (pagedBlog.resolveRoot storage pagedPosts).outcome with
    | error e =>
      rw [houtcome] at hok
      cases hok
    | ok shaped => exact (forall₂_plannedCalls pagedBlog storage htypename houtcome).1
  exact ⟨by decide +kernel, hmet blogStorage (by decide +kernel),
    hmet Registry.emptyStorage (by decide +kernel)⟩

end Schema

end GraphProjection
