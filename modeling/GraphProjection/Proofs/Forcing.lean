import GraphProjection.Proofs.Forcing.Loading
import GraphProjection.Proofs.Narrowing

/-!
# Forcing is not noticed

The policy for always-selected columns decides which relations are loaded beside those that are
requested, and with them which columns are selected.  None of it shows: under either policy a
request has the same response (`Schema.response_withPolicy`), provided the declarations are
accepted, and the storage narrows whole rows and does not fail.  Callbacks are given a query that
they can do more with than filter it, and keys can be given names that relations have as well; what
is asked of them cannot be left out (`Schema.policyShows_board`).

Narrow rows are not compared directly, for a projection without columns of its own, which is one
that fetches all of them, may get columns with the relations that are forced.  Under either policy a
root field has the outcome that it has with every column fetched (`outcome_resolveField_eq`), and of
the two that fetch every column the rows have the same entries, until further relations are attached
to those of one side (`alike_resolveField_allColumns`).
-/

namespace GraphProjection

open FieldNode Projector Stitching

namespace Schema

variable {s : Schema} {storage : Storage} {whole : WholeRows}
  {computed : Row → List (String × String) → String → Value}

/-! ## Preparing -/

/-- The query of a root field with forced relations is the one without them, but for the
relations. -/
theorem query_prepared_widened {d : RootDeclaration} {arguments : Arguments} {bound : Bindings}
    (hhook : ∀ e ∈ hookEdits d bound, e.isQuiet = true) {asked loaded : Projection}
    (hexpressions : loaded.expressions = asked.expressions) :
    (prepared d arguments bound loaded.widened).query =
      (prepared d arguments bound asked.widened).query.withLoads loaded.widened.loads := by
  have hedits : ∀ e ∈ filterEdits d arguments ++ hookEdits d bound, e.isQuiet = true := by
    intro e he
    rcases List.mem_append.1 he with hfilter | hhooked
    · exact isQuiet_filterEdits d arguments e hfilter
    · exact hhook e hhooked
  rw [prepared, prepared, Projection.applyTo, Projection.applyTo,
    Projection.editAll_edits_widened hexpressions, SelectQuery.editAll_withLoads hedits]

/-! ## Fetching -/

lemma alike_fetchRows_forced (hs : storage.Narrows whole computed)
    (hfetch : ∀ query, ∃ rows, storage.fetch query = .ok rows)
    {asked kept : List (RelationEntry × Projection)} {loaded : Projection}
    (hforced : Projection.ForcedAmong asked kept loaded.relations) (hloadable : loaded.Loadable)
    (hunread : loaded.SlotsUnread) {own other : Prepared}
    (hown : own.projection = (loaded.withRelations kept).widened)
    (hother : other.projection = loaded.widened) {query : SelectQuery}
    (hloads : query.eagerLoads = (loaded.withRelations kept).widened.loads)
    {keep : List Row → List Row}
    (hkeep : ∀ rows rows', List.Forall₂ SameEntries rows rows' →
      List.Forall₂ SameEntries (keep rows) (keep rows')) :
    Traced.Alike (List.Forall₂ (RowsAgree (loaded.withRelations kept)))
      (s.fetchRows storage own query keep)
      (s.fetchRows storage other (query.withLoads loaded.widened.loads) keep) := by
  rw [fetchRows, fetchRows]
  refine (alike_fetch_withLoads hs query _).andThen fun rows rows' hrows => ?_
  rw [loadQuery_eq, loadQuery_eq, hloads, hown, hother]
  exact alike_loadAll_of_forcedAmong hs hfetch hforced hloadable hunread (hkeep rows rows' hrows)

/-- What is prepared with and without forced relations fetches alike. -/
lemma fetchesAlike_forced (hs : storage.Narrows whole computed)
    (hfetch : ∀ query, ∃ rows, storage.fetch query = .ok rows)
    {asked kept : List (RelationEntry × Projection)} {loaded : Projection}
    (hforced : Projection.ForcedAmong asked kept loaded.relations) (hloadable : loaded.Loadable)
    (hunread : loaded.SlotsUnread) {d : RootDeclaration} {arguments : Arguments}
    {bound : Bindings} (hhook : ∀ e ∈ hookEdits d bound, e.isQuiet = true) :
    FetchesAlike s storage (loaded.withRelations kept)
      (prepared d arguments bound (loaded.withRelations kept).widened)
      (prepared d arguments bound loaded.widened) := by
  let own := prepared d arguments bound (loaded.withRelations kept).widened
  have hquery : (prepared d arguments bound loaded.widened).query =
      own.query.withLoads loaded.widened.loads := query_prepared_widened hhook rfl
  have hloads : own.query.eagerLoads = (loaded.withRelations kept).widened.loads :=
    (narrowed_prepared hhook _).wideLoads
  have hrows : ∀ query keep, query.eagerLoads = (loaded.withRelations kept).widened.loads →
      (∀ rows rows', List.Forall₂ SameEntries rows rows' →
        List.Forall₂ SameEntries (keep rows) (keep rows')) →
      Traced.Alike (List.Forall₂ (RowsAgree (loaded.withRelations kept)))
        (s.fetchRows storage own query keep)
        (s.fetchRows storage (prepared d arguments bound loaded.widened)
          (query.withLoads loaded.widened.loads) keep) :=
    fun query keep hquery hkeep =>
      alike_fetchRows_forced hs hfetch hforced hloadable hunread rfl rfl hquery hkeep
  -- Whether all rows are fetched, a page of them or the first one: it is the same comparison, with
  -- the query narrowed further.
  constructor
  · rw [hquery]
    exact ⟨rfl, rfl, rfl, rfl⟩
  · intro limit offset
    rw [hquery]
    exact hrows ((own.query.withLimit limit).withOffset offset) id hloads fun _ _ hsame => hsame
  · rw [hquery]
    exact hrows own.query id hloads fun _ _ hsame => hsame
  · rw [hquery]
    exact hrows (own.query.withLimit 1) (·.take 1) hloads fun _ _ hsame =>
      List.forall₂_take 1 hsame

/-! ## Answering -/

/-- The value of a root field that is prepared, and the errors of the fields below it. -/
def resolvePrepared (s : Schema) (storage : Storage) (field : RootField) (r : ResponseField)
    (p : Prepared) : Traced Shaped :=
  (s.fetchValue storage field p r).andThen fun value =>
    match Shaper.shape ⟨s.registry, s.services⟩ field.type.namedType value r.children with
    | .error e => .fail (.shape e)
    | .ok shaped => .pure shaped

/-- Values that are shaped alike under two policies are answered alike. -/
lemma alike_resolvePrepared {field : RootField} {r : ResponseField} {own other : Prepared}
    {R : Value → Value → Prop} (policy policy' : AlwaysSelect)
    (hvalues : Traced.Alike R (s.fetchValue storage field own r)
      (s.fetchValue storage field other r))
    (hshape : ∀ v w, R v w →
      Shaper.shape ⟨s.registry, s.services⟩ field.type.namedType v r.children =
        Shaper.shape ⟨s.registry, s.services⟩ field.type.namedType w r.children) :
    Traced.Alike (· = ·) ((s.withPolicy policy).resolvePrepared storage field r own)
      ((s.withPolicy policy').resolvePrepared storage field r other) := by
  have hpolicy : ∀ policy v,
      Shaper.shape ⟨(s.withPolicy policy).registry, (s.withPolicy policy).services⟩
        field.type.namedType v r.children =
      Shaper.shape ⟨s.registry, s.services⟩ field.type.namedType v r.children :=
    fun policy v => Shaper.shape_withPolicy s.registry s.services policy _ v _
  rw [resolvePrepared, resolvePrepared]
  simp only [hpolicy]
  refine Traced.Alike.andThen (R := R) hvalues fun v w hvw => ?_
  rw [hshape v w hvw]
  exact .refl _

/-- What is projected with and without forced relations is answered alike, every column being
fetched. -/
theorem alike_resolvePrepared_widened (hr : s.registry.Narrowable)
    (hs : storage.Narrows whole computed) (hfetch : ∀ query, ∃ rows, storage.fetch query = .ok rows)
    {field : RootField} {r : ResponseField} (hcoherent : Coherent r.children)
    (hargs : ArgumentsDistinct r.children)
    (hstored : s.registry.FromStorage field.type.namedType r.children) {bound : Bindings}
    (hhook : ∀ e ∈ hookEdits field.declaration bound, e.isQuiet = true)
    {asked loaded : Projection} (hbeyond : asked.ForcedBeyond loaded)
    (hasked : project ⟨s.registry.withPolicy .currentLevel, s.services⟩ field.type.namedType
      r.children = .ok asked)
    (hloaded : project ⟨s.registry.withPolicy .eagerLoadRelations, s.services⟩
      field.type.namedType r.children = .ok loaded) :
    Traced.Alike (· = ·)
      ((s.withPolicy .currentLevel).resolvePrepared storage field r
        (prepared field.declaration r.node.arguments bound asked.widened))
      ((s.withPolicy .eagerLoadRelations).resolvePrepared storage field r
        (prepared field.declaration r.node.arguments bound loaded.widened)) := by
  rcases project_cases hasked with ⟨hnone, rfl⟩ | ⟨t, ht, hprojected⟩
  · -- Nothing is known of the type, so nothing is forced.
    rcases project_cases hloaded with ⟨-, rfl⟩ | ⟨t, ht, -⟩
    · exact alike_resolvePrepared _ _ (.refl _) fun v w hvw => hvw ▸ rfl
    · cases hnone.symm.trans ht
  rcases project_cases hloaded with ⟨hnone, -⟩ | ⟨t', ht', hprojected'⟩
  · cases hnone.symm.trans ht
  cases ht.symm.trans ht'
  obtain ⟨kept, hkept⟩ := hbeyond.relations
  have hserves : Serves ⟨s.registry.withPolicy .currentLevel, s.services⟩ t
      (itemNodes (s.registry.envelope? field.type.namedType) r.children)
      (loaded.withRelations kept) :=
    (serves_of_projectType hr.withPolicy.slots.relationsApart hr.withPolicy.privacy ht
      hstored.withPolicy hargs hprojected).of_forcedBeyond hbeyond hkept
  have hwidened : asked.widened = (loaded.withRelations kept).widened :=
    Projection.widened_eq_of_relations hbeyond.table.symm hbeyond.expressions.symm
      hkept.widenedRelations_eq
  have hfetches : FetchesAlike s storage (loaded.withRelations kept)
      (prepared field.declaration r.node.arguments bound asked.widened)
      (prepared field.declaration r.node.arguments bound loaded.widened) := by
    rw [hwidened]
    exact fetchesAlike_forced hs hfetch hkept
      (loadable_of_projectType hr.withPolicy.slots hr.withPolicy.constraints ht' hprojected')
      (slotsUnread_of_projectType hr.withPolicy.slots ht' hprojected').1 hhook
  refine alike_resolvePrepared _ _ (alike_fetchValue hs hfetches field r) fun v w hagree => ?_
  have hshape := Shaper.shapeValue_eq_of_agree (r := s.registry.withPolicy .currentLevel)
    hr.withPolicy.envelopes hagree rfl ht hserves hcoherent (List.Subset.refl _)
  rw [Shaper.shapeValue_withPolicy, Shaper.shapeValue_withPolicy] at hshape
  exact hshape

/-- A root field that fetches every column is prepared with the widened projection. -/
lemma resolveField_allColumns (s : Schema) (storage : Storage) (field : RootField)
    (r : ResponseField) :
    s.resolveField storage (field.withStrategy .allColumns) r =
      match bind field.declaration.parameters r.node.arguments s.services with
      | .error e => .fail (.bind e)
      | .ok bound =>
        match project ⟨s.registry, s.services⟩ field.type.namedType r.children with
        | .error e => .fail (.projection e)
        | .ok p => s.resolvePrepared storage field r
            (prepared field.declaration r.node.arguments bound p.widened) := by
  have hprepare : s.prepare (field.withStrategy .allColumns) r =
      match bind field.declaration.parameters r.node.arguments s.services with
      | .error e => .error (.bind e)
      | .ok bound =>
        match project ⟨s.registry, s.services⟩ field.type.namedType r.children with
        | .error e => .error (.projection e)
        | .ok p => .ok (prepared field.declaration r.node.arguments bound p.widened) := rfl
  rw [resolveField, hprepare]
  cases bind field.declaration.parameters r.node.arguments s.services with
  | error e => rfl
  | ok bound =>
    cases project ⟨s.registry, s.services⟩ field.type.namedType r.children <;> rfl

/-- A root field that fetches every column has the same outcome whether relations are forced or
not. -/
theorem alike_resolveField_allColumns (htargets : s.registry.TargetsDescribed)
    (hr : s.registry.Narrowable) (hhooks : s.HooksLoadNothing)
    (hs : storage.Narrows whole computed) (hfetch : ∀ query, ∃ rows, storage.fetch query = .ok rows)
    {field : RootField} (hfield : field ∈ s.fields) {r : ResponseField}
    (hcoherent : Coherent r.children) (hargs : ArgumentsDistinct r.children)
    (hstored : s.registry.FromStorage field.type.namedType r.children) :
    Traced.Alike (· = ·)
      ((s.withPolicy .currentLevel).resolveField storage (field.withStrategy .allColumns) r)
      ((s.withPolicy .eagerLoadRelations).resolveField storage
        (field.withStrategy .allColumns) r) := by
  have hbind : ∀ policy, bind field.declaration.parameters r.node.arguments
      (s.withPolicy policy).services =
        bind field.declaration.parameters r.node.arguments s.services := fun _ => rfl
  have hpolicy : ∀ policy, (⟨(s.withPolicy policy).registry, (s.withPolicy policy).services⟩ :
      Projector) = Projector.withPolicy ⟨s.registry, s.services⟩ policy := fun _ => rfl
  rw [resolveField_allColumns, resolveField_allColumns, hbind, hbind, hpolicy, hpolicy]
  cases bind field.declaration.parameters r.node.arguments s.services with
  | error e => exact .fail _ _
  | ok bound =>
    -- A selection that cannot be projected is rejected with the same error under either policy.
    rcases (alike_project (x := ⟨s.registry, s.services⟩) htargets hr.slots
      field.type.namedType r.children).exists_eq with
      ⟨e, hasked, hloaded⟩ | ⟨asked, loaded, hasked, hloaded, hbeyond⟩
    · simp only [hasked, hloaded]
      exact .fail _ _
    · simp only [hasked, hloaded]
      exact alike_resolvePrepared_widened hr hs hfetch hcoherent hargs hstored
        (hhooks.isQuiet_hookEdits hfield bound) hbeyond hasked hloaded

/-- A root field has the same outcome under either policy. -/
lemma outcome_resolveField_withPolicy (htargets : s.registry.TargetsDescribed)
    (hr : s.registry.Narrowable) (hhooks : s.HooksLoadNothing)
    (hs : storage.Narrows whole computed) (hfetch : ∀ query, ∃ rows, storage.fetch query = .ok rows)
    {field : RootField} (hfield : field ∈ s.fields) {r : ResponseField}
    (hcoherent : Coherent r.children) (hargs : ArgumentsDistinct r.children)
    (hstored : s.registry.FromStorage field.type.namedType r.children) :
    ((s.withPolicy .currentLevel).resolveField storage field r).outcome =
      ((s.withPolicy .eagerLoadRelations).resolveField storage field r).outcome := by
  have hwide : ∀ policy, ((s.withPolicy policy).resolveField storage field r).outcome =
      ((s.withPolicy policy).resolveField storage (field.withStrategy .allColumns) r).outcome :=
    fun policy => outcome_resolveField_eq (s := s.withPolicy policy) hr.withPolicy hhooks hs hfield
      hcoherent hargs hstored.withPolicy field.declaration.strategy .allColumns
  calc ((s.withPolicy .currentLevel).resolveField storage field r).outcome
      = ((s.withPolicy .currentLevel).resolveField storage
          (field.withStrategy .allColumns) r).outcome := hwide .currentLevel
    _ = ((s.withPolicy .eagerLoadRelations).resolveField storage
          (field.withStrategy .allColumns) r).outcome :=
        (alike_resolveField_allColumns htargets hr hhooks hs hfetch hfield hcoherent hargs
          hstored).outcome_eq
    _ = ((s.withPolicy .eagerLoadRelations).resolveField storage field r).outcome :=
        (hwide .eagerLoadRelations).symm

/-- The fields that a request asks for do not depend on the policy. -/
lemma requestedFields_withPolicy (s : Schema) (policy : AlwaysSelect) (request : Request) :
    (s.withPolicy policy).requestedFields request = s.requestedFields request := rfl

/-- **Forcing relations is not noticed.**  Declarations that are accepted are accepted under either
policy for always-selected columns, and whichever of the two it is, a request has the same response,
the same data and the same errors: what is loaded beside what was requested does not show.

The storage may not fail, for a query that only a forced relation makes could be the one that fails;
and as with narrow queries, hooks and constraints may filter, add expressions and replace the
columns, but not register relations of their own. -/
theorem response_withPolicy {d : Declarations} (hbuild : d.build = .ok s.registry)
    (hr : s.registry.Narrowable) (hhooks : s.HooksLoadNothing)
    (hs : storage.Narrows whole computed) (hfetch : ∀ query, ∃ rows, storage.fetch query = .ok rows)
    (request : Request)
    (hrequest : ∀ nodes, s.requestedFields request = .ok nodes → s.ReadsStorage nodes) :
    (∀ policy, (d.withPolicy policy).build = .ok (s.withPolicy policy).registry) ∧
      ((s.withPolicy .currentLevel).execute storage request).response =
        ((s.withPolicy .eagerLoadRelations).execute storage request).response := by
  refine ⟨Declarations.build_withPolicy hbuild, ?_⟩
  rw [execute, execute, requestedFields_withPolicy, requestedFields_withPolicy]
  cases hnodes : s.requestedFields request with
  | error e => rfl
  | ok nodes =>
    obtain ⟨hcoherent, hstored⟩ := hrequest nodes hnodes
    have hargs : ArgumentsDistinct nodes := Document.argumentsDistinct_of_expandText hnodes
    refine response_answerAll_congr fun r hmem => answerRoot_of_outcome_eq rfl ?_
    have hfields : ∀ policy, (s.withPolicy policy).field? r.node.name = s.field? r.node.name :=
      fun _ => rfl
    rw [resolveRoot_eq, resolveRoot_eq, hfields, hfields]
    cases hfield : s.field? r.node.name with
    | none => rfl
    | some field =>
      have hin : field ∈ s.fields := List.mem_of_find?_eq_some hfield
      exact outcome_resolveField_withPolicy (Registry.targetsDescribed_of_build hbuild) hr hhooks
        hs hfetch hin (hcoherent.children hmem) (hargs.children hmem) (hstored r hmem field hfield)

/-! ## Posts, comments and their authors -/

/-- Posts and their comments, both with authors, whose names are always selected. -/
def forum : Declarations where
  types := [
    { name := "Post"
      table := some "posts"
      fields := [
        { name := "title", type := "String!", column := some "headline" },
        { name := "comments", type := "CommentPagination!"
          relation := some { localKey := some "id", foreignKey := some "post_id" } },
        { name := "author", type := "User!"
          relation := some { localKey := some "author_id", foreignKey := some "id" } }] },
    { name := "Comment"
      table := some "comments"
      fields := [
        { name := "body", type := "String!" },
        { name := "author", type := "User!"
          relation := some { localKey := some "author_id", foreignKey := some "id" } }] },
    { name := "User"
      table := some "users"
      fields := [{ name := "name", type := "String!", always := true }] }]

/-- The posts of the forum. -/
def forumSchema : Schema where
  registry := ⟨forum.settings, forum.types⟩
  services := fun _ => none
  fields := [⟨{ name := "posts", type := "[Post!]!", table := "posts" },
    .list (.named "Post" true) true⟩]

/-- A post with a comment, and their authors. -/
def forumRows : WholeRows := fun table _ _ _ =>
  if table = "posts" then
    .ok [[("id", .int 1), ("headline", .string "Rows"), ("author_id", .int 7)]]
  else if table = "comments" then
    .ok [[("id", .int 10), ("body", .string "First"), ("post_id", .int 1), ("author_id", .int 8)]]
  else .ok [[("id", .int 7), ("name", .string "Ada")], [("id", .int 8), ("name", .string "Bo")]]

/-- The storage of the forum. -/
def forumStorage : Storage := forumRows.storage fun _ _ _ => .null

/-- Titles and comments, nothing of the authors. -/
def forumRequest : Request where
  query := "\x7b posts \x7b title comments \x7b data \x7b body \x7d \x7d \x7d \x7d"

lemma build_forum : forum.build = .ok forumSchema.registry :=
  Declarations.build_of_isOk (by decide +kernel)

lemma narrowable_forum : forumSchema.registry.Narrowable where
  envelopes := Registry.envelopesApart_of_typeNames (by decide +kernel)
  slots := .of_disjoint ["comments", "author"] (by decide +kernel) (by decide +kernel)
  privacy := Registry.privacyRespectsSame_of_isNone (by decide +kernel)
  constraints := Registry.constraintsLoadNothing_of_isNone (by decide +kernel)

lemma readsStorage_forumRequest (nodes : List FieldNode)
    (h : forumSchema.requestedFields forumRequest = .ok nodes) :
    forumSchema.ReadsStorage nodes :=
  .of_check (n := 4) (by decide +kernel) (by decide +kernel) h

/-- The forum is shown alike whether the names of the authors, for which nobody asks, are loaded for
posts and comments or not. -/
theorem response_withPolicy_forum :
    ((forumSchema.withPolicy .currentLevel).execute forumStorage forumRequest).response =
        ((forumSchema.withPolicy .eagerLoadRelations).execute forumStorage
          forumRequest).response ∧
      askedColumns ((forumSchema.withPolicy .currentLevel).execute forumStorage forumRequest) =
        [["posts.headline", "posts.id"], ["comments.body", "comments.post_id"]] ∧
      askedColumns ((forumSchema.withPolicy .eagerLoadRelations).execute forumStorage
        forumRequest) =
        [["posts.headline", "posts.id", "posts.author_id"],
          ["comments.body", "comments.author_id", "comments.post_id"],
          ["users.name", "users.id"], ["users.name", "users.id"]] := by
  have hhooks : forumSchema.HooksLoadNothing := by
    intro field hfield hook hhook
    rw [List.mem_singleton.1 hfield] at hhook
    cases hhook
  have hfetch : ∀ query, ∃ rows, forumStorage.fetch query = .ok rows := by
    intro query
    show ∃ rows, (forumRows query.table _ _ _).map _ = .ok rows
    rw [forumRows]
    split
    · exact ⟨_, rfl⟩
    · split
      · exact ⟨_, rfl⟩
      · exact ⟨_, rfl⟩
  refine ⟨?_, by decide +kernel, by decide +kernel⟩
  exact (response_withPolicy build_forum narrowable_forum hhooks
    (WholeRows.narrows_storage forumRows _) hfetch forumRequest readsStorage_forumRequest).2

/-! ## Where the policy shows -/

/-- The policy shows in the response to a request.  It is no fault of the declarations, which are
accepted and keep their names apart, of the storage, which narrows whole rows and never fails, or of
the request, whose fields come from the storage. -/
structure PolicyShows (s : Schema) (storage : Storage) (request : Request) : Prop where
  built : ∃ d : Declarations, d.build = .ok s.registry
  envelopes : s.registry.EnvelopesApart
  names : s.registry.NamesApart
  narrows : ∃ whole computed, storage.Narrows whole computed
  fetched : ∀ query, ∃ rows, storage.fetch query = .ok rows
  reads : ∀ nodes, s.requestedFields request = .ok nodes → s.ReadsStorage nodes
  response_ne : ((s.withPolicy .currentLevel).execute storage request).response ≠
    ((s.withPolicy .eagerLoadRelations).execute storage request).response

/-- Posts and comments that reply to each other, both with authors whose names are always selected.
A comment has its author under a name to choose, what a post says of its author may be subject to a
privacy rule, and its comments to a constraint. -/
def board (authored : String) (privacy : Option Privacy) (constraint : Option Constraint) :
    Declarations where
  types := [
    { name := "Post"
      table := some "posts"
      fields := [
        { name := "title", type := "String!" },
        { name := "authorId", type := "Int", column := some "author_id", privacy := privacy },
        { name := "comments", type := "[Comment!]!"
          relation := some { localKey := some "id", foreignKey := some "post_id"
                             constraint := constraint } },
        { name := "author", type := "User!"
          relation := some { localKey := some "author_id", foreignKey := some "id" } }] },
    { name := "Comment"
      table := some "comments"
      fields := [
        { name := "body", type := "String!" },
        { name := "replies", type := "[Comment!]!"
          relation := some { localKey := some "id", foreignKey := some "parent_id" } },
        { name := authored, type := "User!"
          relation := some { localKey := some "author_id", foreignKey := some "id" } }] },
    { name := "User"
      table := some "users"
      fields := [{ name := "name", type := "String!", always := true }] }]

/-- The posts of a board. -/
def boardSchema (d : Declarations) (hook : Option QueryHook) : Schema where
  registry := ⟨d.settings, d.types⟩
  services := fun _ => none
  fields := [⟨{ name := "posts", type := "[Post!]!", table := "posts", hook := hook },
    .list (.named "Post" true) true⟩]

/-- A post and a comment, their authors, and what each of the two has pinned. -/
def boardRows : WholeRows := fun table _ _ _ => .ok <|
  if table = "posts" then
    [[("id", .int 1), ("title", .string "Rows"), ("author_id", .int 7)]]
  else if table = "comments" then
    [[("id", .int 10), ("body", .string "First"), ("post_id", .int 1), ("parent_id", .null),
      ("author_id", .int 8)]]
  else if table = "pins" then
    [[("body", .string "Pinned"), ("user_id", .int 7)],
      [("body", .string "Pinned"), ("user_id", .int 8)]]
  else [[("id", .int 7), ("name", .string "Ada")], [("id", .int 8), ("name", .string "Bo")]]

/-- The storage of a board. -/
def boardStorage : Storage := boardRows.storage fun _ _ _ => .null

lemma fetch_boardStorage (query : SelectQuery) :
    ∃ rows, boardStorage.fetch query = .ok rows := ⟨_, rfl⟩

/-- Of a board it is enough to look at its types, at the request, and at the two responses. -/
lemma PolicyShows.of_check {d : Declarations} {hook : Option QueryHook} {request : Request}
    (h : d.build.isOk = true ∧
      (∀ name ∈ (boardSchema d hook).registry.typeNames,
        ((boardSchema d hook).registry.envelope? name).isNone = true) ∧
      (boardSchema d hook).registry.allDescribed (fun t => t.slotNames.all fun slot =>
        t.fields.all fun f => !(Registry.entryNames f).contains slot) = true ∧
      (boardSchema d hook).registry.allDescribed (fun t => t.fields.all (·.isStored)) = true ∧
      ((boardSchema d hook).requestedFields request).toOption.all (coherentTo 4) = true ∧
      (((boardSchema d hook).withPolicy .currentLevel).execute boardStorage request).response ≠
        (((boardSchema d hook).withPolicy .eagerLoadRelations).execute boardStorage
          request).response) :
    PolicyShows (boardSchema d hook) boardStorage request := by
  obtain ⟨hbuild, henvelopes, hnames, hstored, hcoherent, hne⟩ := h
  exact ⟨⟨d, Declarations.build_of_isOk hbuild⟩, Registry.envelopesApart_of_typeNames henvelopes,
    Registry.namesApart_of_check hnames, ⟨boardRows, _, WholeRows.narrows_storage boardRows _⟩,
    fetch_boardStorage, fun nodes hnodes => .of_check hstored hcoherent hnodes, hne⟩

lemma hooksLoadNothing_boardSchema (d : Declarations) :
    (boardSchema d none).HooksLoadNothing := by
  intro field hfield hook hhook
  rw [List.mem_singleton.1 hfield] at hhook
  cases hhook

/-- Loads what an author has pinned, under the name of a relation. -/
def loadPins (slot : String) : Edit :=
  .load ⟨slot, "pins", some "pins", "author_id", "user_id", true⟩ []

/-- Posts that show the pins of their authors where their comments are asked for. -/
def hookedBoard : Schema :=
  boardSchema (board "author" none none) (some fun _ => [loadPins "comments"])

/-- Comments that show the pins of their authors where the replies to them are asked for. -/
def constrainedBoard : Schema :=
  boardSchema (board "author" none (some fun _ => [loadPins "replies"])) none

/-- A board whose privacy rule looks at the order of arguments. -/
def privateBoard : Schema :=
  boardSchema (board "author" (some fun arguments _ => arguments.names == ["y", "x"]) none) none

/-- A board whose comments have their author under the name of the column by which they are matched
with their post. -/
def crossedBoard : Schema := boardSchema (board "post_id" none none) none

/-- Titles and comments. -/
def commentsRequest : Request where
  query := "\x7b posts \x7b title comments \x7b body \x7d \x7d \x7d"

/-- Comments and the replies to them. -/
def repliesRequest : Request where
  query := "\x7b posts \x7b comments \x7b replies \x7b body \x7d \x7d \x7d \x7d"

/-- The same field twice, with its arguments in another order. -/
def reorderedRequest : Request where
  query := "\x7b posts \x7b title a: authorId(x: 1, y: 2) b: authorId(y: 2, x: 1) \x7d \x7d"

/-- Each condition on callbacks, and that on the names of foreign keys, is needed beside all
others: where it is not met, the policy shows.

* The relation that a hook or a constraint registers is matched by a column, and on a board it is
  the column of an author, which is fetched where the author is loaded.
* A privacy rule that tells apart what are the same arguments hides a field by the first of them,
  so its column is not selected, and shows it by the others; there is something to show if the
  column was fetched with the author.
* An author that is attached to a comment under the name of a foreign key takes the place of what
  the comment is matched by. -/
theorem policyShows_board :
    (hookedBoard.registry.Narrowable ∧ PolicyShows hookedBoard boardStorage commentsRequest) ∧
      (constrainedBoard.registry.SlotsApartThroughout ∧
        constrainedBoard.registry.PrivacyRespectsSame ∧ constrainedBoard.HooksLoadNothing ∧
        PolicyShows constrainedBoard boardStorage repliesRequest) ∧
      (privateBoard.registry.SlotsApartThroughout ∧
        privateBoard.registry.ConstraintsLoadNothing ∧ privateBoard.HooksLoadNothing ∧
        PolicyShows privateBoard boardStorage reorderedRequest) ∧
      crossedBoard.registry.PrivacyRespectsSame ∧
        crossedBoard.registry.ConstraintsLoadNothing ∧ crossedBoard.HooksLoadNothing ∧
        PolicyShows crossedBoard boardStorage commentsRequest := by
  have hhooked : PolicyShows hookedBoard boardStorage commentsRequest :=
    .of_check (by decide +kernel)
  refine ⟨⟨⟨hhooked.envelopes, ?_, ?_, ?_⟩, hhooked⟩,
    ⟨?_, ?_, hooksLoadNothing_boardSchema _, .of_check (by decide +kernel)⟩,
    ⟨?_, ?_, hooksLoadNothing_boardSchema _, .of_check (by decide +kernel)⟩,
    ?_, ?_, hooksLoadNothing_boardSchema _, .of_check (by decide +kernel)⟩
  · exact .of_disjoint ["comments", "replies", "author"] (by decide +kernel) (by decide +kernel)
  · exact Registry.privacyRespectsSame_of_isNone (by decide +kernel)
  · exact Registry.constraintsLoadNothing_of_isNone (by decide +kernel)
  · exact .of_disjoint ["comments", "replies", "author"] (by decide +kernel) (by decide +kernel)
  · exact Registry.privacyRespectsSame_of_isNone (by decide +kernel)
  · exact .of_disjoint ["comments", "replies", "author"] (by decide +kernel) (by decide +kernel)
  · exact Registry.constraintsLoadNothing_of_isNone (by decide +kernel)
  · exact Registry.privacyRespectsSame_of_isNone (by decide +kernel)
  · exact Registry.constraintsLoadNothing_of_isNone (by decide +kernel)

end Schema

end GraphProjection
