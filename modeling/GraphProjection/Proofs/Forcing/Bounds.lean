import GraphProjection.Proofs.Projection.Levels

/-!
# Forced relations are bounded

Types may lead to each other in circles, and at every level that was requested the policy for
always-selected columns may load relations that were not.  Neither makes a projection go on for
ever: a relation is followed only where it was requested, and a forced one has no relations of its
own.

The recursion of `projectType` is here written without its measure.  `Projector.projectTo` follows
requested relations so many times and then does whatever it is told, and where the selection is not
as deep as that, it is never told (`projectTo_eq_projectType`).  What the projection comes to has at
most one relation more on a way down than the selection has fields (`depth_projectType_le`).

`Projector.Bounded` is what is loaded for a relation that was not requested, and
`exists_bounded_of_exact` that there is nothing else at a level.  Main statement:
**`bounded_of_project`**.
-/

namespace GraphProjection

/-! ## How deep relations are nested -/

namespace Projection

mutual

/-- How many relations lie on the longest way down from a projection. -/
def depth : Projection → Nat
  | ⟨_, _, _, relations⟩ => relationsDepth relations

/-- The same for relations and the projections that they hold. -/
def relationsDepth : List (RelationEntry × Projection) → Nat
  | [] => 0
  | (_, child) :: rest => max (child.depth + 1) (relationsDepth rest)

end

lemma depth_eq (p : Projection) : p.depth = relationsDepth p.relations := by
  cases p
  rfl

lemma relationsDepth_le {relations : List (RelationEntry × Projection)} {n : Nat}
    (h : ∀ relation ∈ relations, relation.2.depth + 1 ≤ n) : relationsDepth relations ≤ n := by
  induction relations with
  | nil => exact Nat.zero_le n
  | cons relation rest ih =>
    obtain ⟨entry, child⟩ := relation
    rw [relationsDepth]
    have hhead := h (entry, child) List.mem_cons_self
    have hrest := ih fun relation hmem => h relation (List.mem_cons_of_mem _ hmem)
    exact Nat.max_le.2 ⟨hhead, hrest⟩

lemma depth_le {p : Projection} {n : Nat}
    (h : ∀ relation ∈ p.relations, relation.2.depth + 1 ≤ n) : p.depth ≤ n := by
  rw [depth_eq]
  exact relationsDepth_le h

lemma depth_addColumn (p : Projection) (column : String) :
    (p.addColumn column).depth = p.depth := by
  rw [depth_eq, depth_eq, relations_addColumn]

end Projection

namespace Projector

open FieldNode

/-! ## The recursion without its measure -/

/-- One step of a projection, where `self` projects what is selected below a relation. -/
def projectStep (x : Projector)
    (self : OutputType → List FieldNode → Except ProjectionError Projection) (t : OutputType)
    (nodes : List FieldNode) : Except ProjectionError Projection :=
  match t.checkFields nodes [] with
  | .error e => .error e
  | .ok () =>
    t.fields.foldlM (x.addField t nodes fun target below _ => self target below)
      (Projection.ofTable t.table)

/-- So many steps of a projection, and `bottom` below them. -/
def projectTo (x : Projector)
    (bottom : OutputType → List FieldNode → Except ProjectionError Projection) :
    Nat → OutputType → List FieldNode → Except ProjectionError Projection
  | 0 => bottom
  | n + 1 => x.projectStep (x.projectTo bottom n)

/-- The projection of a selection on a type, or on an envelope of one, where `self` projects the
fields of a registered type. -/
def projectWith (x : Projector)
    (self : OutputType → List FieldNode → Except ProjectionError Projection) (type : String)
    (nodes : List FieldNode) : Except ProjectionError Projection :=
  let envelope := x.registry.envelope? type
  match checkEnvelope envelope type nodes with
  | .error e => .error e
  | .ok () =>
    match x.registry.describe (itemType envelope type) with
    | .error e => .error (.registry e)
    | .ok none => .ok (Projection.ofTable none)
    | .ok (some t) => self t (itemNodes envelope nodes)

variable {x : Projector} {type : String} {t : OutputType} {nodes : List FieldNode}
  {p : Projection}

/-- As many steps as a selection is deep, and one more, are all that there are. -/
theorem projectTo_eq_projectType
    (bottom : OutputType → List FieldNode → Except ProjectionError Projection) {n : Nat}
    (h : depths nodes < n) : x.projectTo bottom n t nodes = x.projectType t nodes := by
  induction n generalizing t nodes with
  | zero => omega
  | succ n ih =>
    have hself : (fun (target : OutputType) (below : List FieldNode)
        (_ : depths below < depths nodes) => x.projectTo bottom n target below) =
          fun target below _ => x.projectType target below := by
      funext target below hlt
      have hbelow : depths below < n := by omega
      exact ih hbelow
    rw [projectTo, projectStep, projectType]
    cases t.checkFields nodes [] with
    | error e => rfl
    | ok _ =>
      exact congrArg (fun project =>
        t.fields.foldlM (x.addField t nodes project) (Projection.ofTable t.table)) hself

lemma projectWith_eq_project
    (bottom : OutputType → List FieldNode → Except ProjectionError Projection) {n : Nat}
    (h : depths nodes < n) :
    x.projectWith (x.projectTo bottom n) type nodes = x.project type nodes := by
  have hdepth : depths (itemNodes (x.registry.envelope? type) nodes) < n :=
    Nat.lt_of_le_of_lt (depths_itemNodes_le _ nodes) h
  have hself : ∀ t, x.projectTo bottom n t (itemNodes (x.registry.envelope? type) nodes) =
      x.projectType t (itemNodes (x.registry.envelope? type) nodes) :=
    fun t => projectTo_eq_projectType bottom hdepth
  simp only [projectWith, project]
  cases checkEnvelope (x.registry.envelope? type) type nodes with
  | error e => rfl
  | ok _ =>
    cases x.registry.describe (itemType (x.registry.envelope? type) type) with
    | error e => rfl
    | ok described =>
      cases described with
      | none => rfl
      | some t => exact hself t

/-! ## The depth of the result -/

lemma depth_forcedProjection (target : OutputType) (r : RelationDescriptor) :
    (forcedProjection target r).depth = 0 := by
  have hrelations : (forcedProjection target r).relations = [] := by
    simp [forcedProjection, Projection.ofTable]
  rw [Projection.depth_eq, hrelations]
  rfl

/-- On a way down a projection there is at most one relation more than there are fields on a way
down the selection, the one that is forced. -/
theorem depth_projectType_le (h : x.projectType t nodes = .ok p) :
    p.depth ≤ depths nodes + 1 := by
  induction hdepth : depths nodes using Nat.strongRecOn generalizing t nodes p with
  | _ n ih =>
  subst hdepth
  refine Projection.depth_le fun relation hrelation => ?_
  obtain ⟨f, -, r, target, horigin, -⟩ := exists_origin_of_mem h hrelation
  rcases horigin.below with ⟨-, hforced⟩ | ⟨first, rest, child, hrequested, hchild, hbelow⟩
  · rw [hforced, depth_forcedProjection]
    omega
  · have hsubset : first :: rest ⊆ nodes := hrequested ▸ requested_subset nodes f.name
    have hlt := Nat.lt_of_le_of_lt
      (depths_itemNodes_le (x.registry.envelope? f.type.namedType) (childrenOf (first :: rest)))
      (depths_childrenOf_lt hsubset (List.cons_ne_nil first rest))
    have hle := ih _ hlt hchild rfl
    rw [hbelow, Projection.depth_addColumn]
    omega

lemma depth_project_le (h : x.project type nodes = .ok p) : p.depth ≤ depths nodes + 1 := by
  rcases project_spec h with rfl | ⟨t, -, hprojected⟩
  · exact Nat.zero_le _
  · have hle := depth_projectType_le hprojected
    have hitems := depths_itemNodes_le (x.registry.envelope? type) nodes
    omega

/-! ## What is forced at a level -/

/-- What is loaded at a level for a relation `f` of its type that was not requested.  The policy
forces relations, and some column of the target is always selected; the columns are those, in the
order of declaration, and the foreign key behind them unless it is one of them; nothing else is
loaded, no arguments are given, and the level has the local key. -/
structure Bounded (x : Projector) (level : Projection) (relation : RelationEntry × Projection)
    (t : OutputType) (f : FieldDescriptor) (r : RelationDescriptor) (target : OutputType) :
    Prop where
  described : ∃ name, x.registry.describe name = .ok (some t)
  table : level.table = t.table
  loaded : x.LoadedFor t relation f r target
  policy : x.registry.settings.alwaysSelect = .eagerLoadRelations
  always : target.hasAlwaysColumns = true
  arguments : relation.1.arguments = []
  source : relation.2.table = target.table
  columns : relation.2.columns = (target.alwaysColumns ++ [target.qualify r.foreignKey]).eraseDups
  expressions : relation.2.expressions = []
  relations : relation.2.relations = []
  localKey : t.qualify r.localKey ∈ level.columns

/-- A relation of a level is loaded for a field that is granted or forced. -/
lemma Tight.exists_loadedFor {matching : Option String} (h : x.Tight t nodes matching p)
    {relation : RelationEntry × Projection} (hrelation : relation ∈ p.relations) :
    ∃ f r target arguments, x.LoadedFor t relation f r target ∧
      (x.Grants nodes f arguments ∨ (x.Forces nodes f target ∧ arguments = [])) ∧
      relation.1 = relationEntry f r target (x.registry.envelope? f.type.namedType) arguments := by
  obtain ⟨f, hf, r, target, arguments, hkind, htarget, hwhy, hentry⟩ :=
    (h.mem_relations relation.1).1 (List.mem_map_of_mem hrelation)
  refine ⟨f, r, target, arguments, ⟨hf, ?_, hkind, htarget⟩, hwhy, hentry⟩
  rw [hentry]
  rfl

/-- A relation of an exact level that was not requested is bounded. -/
theorem exists_bounded_of_exact {name : String} {matching : Option String}
    (ht : x.registry.describe name = .ok (some t)) (h : x.Exact t nodes matching p)
    {relation : RelationEntry × Projection} (hrelation : relation ∈ p.relations)
    (hnone : requested nodes relation.1.target.field = []) :
    ∃ f r target, x.Bounded p relation t f r target := by
  cases h with
  | intro tight unrequested below =>
    obtain ⟨f, r, target, arguments, hloaded, hwhy, hentry⟩ := tight.exists_loadedFor hrelation
    rw [hloaded.slot] at hnone
    obtain ⟨hforces, rfl⟩ : x.Forces nodes f target ∧ arguments = [] := by
      -- What was not requested can only be loaded because it was forced.
      refine hwhy.resolve_left ?_
      rintro ⟨first, rest, hrequested, -⟩
      rw [hnone] at hrequested
      cases hrequested
    obtain ⟨hsource, hexpressions, hrelations, hcolumns⟩ :=
      unrequested relation hrelation f r target hloaded hnone
    have hkey : relation.1.target.localKey = r.localKey := by
      rw [hentry]
      rfl
    have hlocal : t.qualify relation.1.target.localKey ∈ p.columns :=
      (tight.mem_columns _).2 (.inr (.inl ⟨relation, hrelation, rfl⟩))
    exact ⟨f, r, target, {
      described := ⟨name, ht⟩
      table := tight.table
      loaded := hloaded
      policy := hforces.policy
      always := hforces.always
      arguments := by rw [hentry]; rfl
      source := hsource
      columns := hcolumns
      expressions := hexpressions
      relations := hrelations
      localKey := hkey ▸ hlocal }⟩

/-- A level has no relations, or it is exact for what is selected there of its rows. -/
def Level (x : Projector) (nodes : List FieldNode) (paged : Bool) (p : Projection) : Prop :=
  p.relations = [] ∨ ∃ name t matching, x.registry.describe name = .ok (some t) ∧
    x.Exact t (if paged then envelopeItems nodes else nodes) matching p

lemma itemNodes_eq_ite (envelope : Option (PageKind × String)) (nodes : List FieldNode) :
    itemNodes envelope nodes = if envelope.isSome then envelopeItems nodes else nodes := by
  cases envelope <;> rfl

lemma level_of_project (h : x.project type nodes = .ok p) :
    x.Level nodes (x.registry.envelope? type).isSome p := by
  rcases project_spec h with rfl | ⟨t, ht, hprojected⟩
  · exact .inl rfl
  · refine .inr ⟨_, t, none, ht, ?_⟩
    rw [← itemNodes_eq_ite]
    exact exact_of_projectType ht hprojected

/-- Going down a relation leads from one level to another. -/
lemma Level.below_relation (h : x.Level nodes false p) {name : String} {entry : RelationEntry}
    {child : Projection} (hfound : p.relation? name = some (entry, child)) :
    x.Level (childrenOf (requested nodes name)) entry.page.isSome child := by
  obtain ⟨hmem, hname⟩ := Projection.mem_of_relation? hfound
  rcases h with hnone | ⟨-, t, matching, -, ⟨tight, unrequested, below⟩⟩
  · rw [hnone] at hmem
    cases hmem
  · obtain ⟨f, r, target, arguments, hloaded, -, hentry⟩ := tight.exists_loadedFor hmem
    have hslot : name = f.name := hname.symm.trans hloaded.slot
    have hpage : entry.page.isSome = (x.registry.envelope? f.type.namedType).isSome := by
      rw [show entry = _ from hentry]
      exact Option.isSome_map
    cases hrequested : requested nodes f.name with
    | nil =>
      obtain ⟨-, -, hrelations, -⟩ := unrequested _ hmem f r target hloaded hrequested
      exact .inl hrelations
    | cons first rest =>
      refine .inr ⟨_, target, some (target.qualify r.foreignKey), hloaded.targets, ?_⟩
      rw [hslot, hrequested, hpage, ← itemNodes_eq_ite]
      exact below _ hmem f r target first rest hloaded hrequested

lemma Level.at {path : List String} {paged onPage : Bool} {level : Projection}
    (h : x.Level nodes paged p) (hlevel : p.levelAt? paged path = some (level, onPage)) :
    x.Level (selectedAt nodes path) onPage level := by
  induction path generalizing nodes p paged with
  | nil =>
    rw [Projection.levelAt?_nil] at hlevel
    cases hlevel
    exact h
  | cons name path ih =>
    cases paged with
    | true =>
      obtain ⟨rfl, hrest⟩ := Projection.levelAt?_paged_cons hlevel
      refine ih ?_ hrest
      rw [← envelopeItems_eq]
      exact h
    | false =>
      obtain ⟨entry, child, hfound, hrest⟩ := Projection.levelAt?_row_cons hlevel
      exact ih (h.below_relation hfound) hrest

/-- **Forced relations are bounded**, whatever the types and the policy.  A projection takes no more
steps down than the selection is deep, whatever would come below them, and its relations are nested
at most one deeper than that.  At every level each relation is found under its own field, and one
that was not requested is bounded. -/
theorem bounded_of_project (x : Projector) (type : String) (nodes : List FieldNode) :
    (∀ bottom n, depths nodes < n →
      x.projectWith (x.projectTo bottom n) type nodes = x.project type nodes) ∧
    ∀ p, x.project type nodes = .ok p →
      p.depth ≤ depths nodes + 1 ∧
      ∀ path level,
        p.levelAt? (x.registry.envelope? type).isSome path = some (level, false) →
        ∀ relation ∈ level.relations,
          level.relation? relation.1.target.field = some relation ∧
          (requested (selectedAt nodes path) relation.1.target.field = [] →
            ∃ t f r target, x.Bounded level relation t f r target) := by
  refine ⟨fun bottom n hn => projectWith_eq_project bottom hn, fun p hp => ?_⟩
  refine ⟨depth_project_le hp, fun path level hlevel relation hrelation => ?_⟩
  rcases (level_of_project hp).at hlevel with hnone | ⟨name, t, matching, ht, hexact⟩
  · rw [hnone] at hrelation
    cases hrelation
  · refine ⟨?_, fun hunrequested => ⟨t, exists_bounded_of_exact ht hexact hrelation hunrequested⟩⟩
    cases hexact with
    | intro tight _ _ => exact Projection.relation?_of_mem tight.relations_nodup hrelation

/-! ## People who manage each other -/

/-- People lead to people in both directions, and their numbers are always selected. -/
def staff : Registry where
  settings := { alwaysSelect := .eagerLoadRelations }
  types := [
    { name := "Person"
      table := some "people"
      fields := [
        { name := "id", type := "ID!", always := true },
        { name := "manager", type := "Person"
          relation := some { localKey := some "manager_id", foreignKey := some "id" } },
        { name := "reports", type := "[Person!]!"
          relation := some { localKey := some "id", foreignKey := some "manager_id" } }] }]

/-- The manager, of whom nothing is asked. -/
def managerSelection : List FieldNode := [⟨none, "manager", [], ⟨1, 3⟩, []⟩]

/-- Of the manager, the manager's own manager and reports are loaded, and that is all: the relations
are nested one deeper than the selection. -/
theorem bounded_of_project_staff :
    ∃ p level, project ⟨staff, fun _ => none⟩ "Person" managerSelection = .ok p ∧
      p.levelAt? false ["manager"] = some (level, false) ∧
      p.depth = 2 ∧ depths managerSelection = 1 ∧
      level.relations.map (fun relation => (relation.1.target.field, relation.2.columns)) =
        [("manager", ["people.id"]), ("reports", ["people.id", "people.manager_id"])] ∧
      ∀ relation ∈ level.relations,
        ∃ t f r target, Bounded ⟨staff, fun _ => none⟩ level relation t f r target := by
  have hdepth : (project ⟨staff, fun _ => none⟩ "Person" managerSelection).toOption.map
      (·.depth) = some 2 := by decide +kernel
  have hcontent : (project ⟨staff, fun _ => none⟩ "Person" managerSelection).toOption.map
      (fun p => (p.levelAt? false ["manager"]).map fun level => (level.2,
        level.1.relations.map fun relation => (relation.1.target.field, relation.2.columns))) =
      some (some (false,
        [("manager", ["people.id"]), ("reports", ["people.id", "people.manager_id"])])) := by
    decide +kernel
  have hrow : (staff.envelope? "Person").isSome = false := by decide +kernel
  obtain ⟨p, hp, hdepth⟩ := exists_ok_of_map_toOption hdepth
  rw [hp] at hcontent
  obtain ⟨⟨level, onPage⟩, hlevel, heq⟩ := Option.map_eq_some_iff.1 (Option.some.inj hcontent)
  obtain ⟨rfl, hrelations⟩ := Prod.mk.inj heq
  refine ⟨p, level, hp, hlevel, hdepth, by decide, hrelations, fun relation hmem => ?_⟩
  obtain ⟨-, hall⟩ := (bounded_of_project ⟨staff, fun _ => none⟩ "Person" managerSelection).2 p hp
  rw [← hrow] at hlevel
  exact (hall ["manager"] level hlevel relation hmem).2 rfl

end Projector

end GraphProjection
