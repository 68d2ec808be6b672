import GraphProjection.Proofs.Widening

/-!
# Trees of queries

A projection makes a query, and for each of its relations a query that hangs on it; the constraint
of a relation then narrows the query of the relation further.  `Projection.Applied` describes the
tree of queries that comes out, level by level and together with the tree of the widened
projection: which columns, expressions and conditions there are and where they come from, which
relations hang on a query and in which order, and that the two trees differ in nothing but the
columns of the projection.

What a constraint does is told without carrying it out: it puts the columns of its last `select` in
the place of others (`chosenColumns?`), and adds its expressions and its conditions
(`editAll_of_quiet`).

Main statement: **`applied_iff`**.  Of a projection whose constraints register no relations of their
own, these are the trees and there are no others.
-/

namespace GraphProjection

/-! ## What constraints do -/

/-- The columns that a step puts in the place of others. -/
def Edit.columns? : Edit → Option (List String)
  | .select columns => some columns
  | _ => none

/-- The expression that a step adds, with its alias. -/
def Edit.expression? : Edit → Option (String × String)
  | .selectRaw expression outputAlias => some (expression, outputAlias)
  | _ => none

/-- The condition that a step adds. -/
def Edit.condition? : Edit → Option Condition
  | .whereEq column value => some (.equals column value)
  | _ => none

/-- The columns that are in the place of others after some steps: the last ones that were put
there. -/
def chosenColumns? (steps : List Edit) : Option (List String) :=
  (steps.filterMap Edit.columns?).getLast?

/-- Steps that register no relation choose columns, and add expressions and conditions. -/
theorem SelectQuery.editAll_of_quiet {steps : List Edit} (h : ∀ e ∈ steps, e.isQuiet = true)
    (q : SelectQuery) :
    q.editAll steps =
      { q with
        columns := (chosenColumns? steps).getD q.columns
        expressions := q.expressions ++ steps.filterMap Edit.expression?
        conditions := q.conditions ++ steps.filterMap Edit.condition? } := by
  induction steps generalizing q with
  | nil =>
    cases q
    simp [editAll, chosenColumns?]
  | cons e rest ih =>
    rw [List.forall_mem_cons] at h
    rw [editAll, ih h.2]
    simp only [chosenColumns?, List.filterMap_cons]
    cases e with
    | select columns =>
      simp [edit, select, Edit.columns?, Edit.expression?, Edit.condition?, List.getLast?_cons]
    | selectRaw expression outputAlias =>
      simp [edit, selectRaw, Edit.columns?, Edit.expression?, Edit.condition?]
    | whereEq column value =>
      simp [edit, whereEq, addCondition, Edit.columns?, Edit.expression?, Edit.condition?]
    | load target below => cases h.1

attribute [ext] SelectQuery

namespace Projection

/-- No constraint of a projection registers a relation, at any depth. -/
inductive ConstraintsQuiet : Projection → Prop
  | intro {p : Projection}
      (quiet : ∀ relation ∈ p.relations, ∀ e ∈ relation.1.constraintEdits, e.isQuiet = true)
      (below : ∀ relation ∈ p.relations, relation.2.ConstraintsQuiet) : p.ConstraintsQuiet

/-! ## The trees of a projection -/

/-- One level of the trees that a projection and the widened one make.  Of its own, the projection
brings columns and expressions; the steps of a constraint may choose other columns, and add
expressions and conditions behind those of the projection.  Widened, the level lacks the columns of
the projection, and only those. -/
structure AppliedLevel (p : Projection) (table : String) (steps : List Edit)
    (narrow wide : SelectQuery) : Prop where
  table : narrow.table = table
  columns : narrow.columns = (chosenColumns? steps).getD p.columns
  expressions : narrow.expressions = p.expressions ++ steps.filterMap Edit.expression?
  conditions : narrow.conditions = steps.filterMap Edit.condition?
  limit : narrow.limit = none
  offset : narrow.offset = none
  wideTable : wide.table = narrow.table
  wideColumns : wide.columns = (chosenColumns? steps).getD []
  wideExpressions : wide.expressions = narrow.expressions
  wideConditions : wide.conditions = narrow.conditions
  wideLimit : wide.limit = narrow.limit
  wideOffset : wide.offset = narrow.offset

mutual

/-- The trees of queries for a projection on a table, and steps that follow. -/
inductive Applied : Projection → String → List Edit → SelectQuery → SelectQuery → Prop
  | intro {p : Projection} {table : String} {steps : List Edit} {narrow wide : SelectQuery}
      (level : AppliedLevel p table steps narrow wide)
      (loads : AppliedLoads p.relations narrow.eagerLoads wide.eagerLoads) :
      Applied p table steps narrow wide

/-- What hangs on the queries for some relations: one query for each of them, in their order, as its
entry says where it is attached, what it is called and how it is matched.  The name of a relation
stands for a table that is not known.  The constraint comes after the projection of the relation. -/
inductive AppliedLoads : List (RelationEntry × Projection) →
    List (RelationTarget × SelectQuery) → List (RelationTarget × SelectQuery) → Prop
  | nil : AppliedLoads [] [] []
  | cons {entry : RelationEntry} {child : Projection}
      {relations : List (RelationEntry × Projection)} {narrow wide : SelectQuery}
      {loads wideLoads : List (RelationTarget × SelectQuery)}
      (constrained : narrow = (child.applyTo (.all
        (entry.target.table.getD entry.target.relation))).editAll entry.constraintEdits)
      (wideConstrained : wide = (child.widened.applyTo (.all
        (entry.target.table.getD entry.target.relation))).editAll entry.constraintEdits)
      (below : Applied child (entry.target.table.getD entry.target.relation)
        entry.constraintEdits narrow wide)
      (rest : AppliedLoads relations loads wideLoads) :
      AppliedLoads ((entry, child) :: relations) ((entry.target, narrow) :: loads)
        ((entry.target, wide) :: wideLoads)

end

variable {p : Projection} {table : String} {steps : List Edit} {narrow wide : SelectQuery}

/-- What a projection makes of the query of a table. -/
lemma applyTo_all (p : Projection) (table : String) :
    p.applyTo (.all table) =
      { table := table
        columns := p.columns
        expressions := p.expressions
        conditions := []
        limit := none
        offset := none
        eagerLoads := p.loads } := by
  rw [applyTo, editAll_edits]
  cases hcolumns : p.columns with
  | nil => rfl
  | cons column rest => rfl

lemma appliedLevel_of_quiet (h : ∀ e ∈ steps, e.isQuiet = true) :
    AppliedLevel p table steps ((p.applyTo (.all table)).editAll steps)
      ((p.widened.applyTo (.all table)).editAll steps) := by
  rw [applyTo_all, applyTo_all, SelectQuery.editAll_of_quiet h, SelectQuery.editAll_of_quiet h]
  constructor <;> simp

lemma appliedLoads_of_forall {relations : List (RelationEntry × Projection)}
    (h : ∀ relation ∈ relations, Applied relation.2 relation.1.target.queriedTable
      relation.1.constraintEdits (relation.1.query relation.2)
      (relation.1.query relation.2.widened)) :
    AppliedLoads relations
      (relations.map fun relation => (relation.1.target, relation.1.query relation.2))
      (relations.map fun relation => (relation.1.target, relation.1.query relation.2.widened)) := by
  induction relations with
  | nil => exact .nil
  | cons relation rest ih =>
    rw [List.forall_mem_cons] at h
    exact .cons (SelectQuery.editAll_append _ _ _) (SelectQuery.editAll_append _ _ _) h.1 (ih h.2)

/-- The trees are what the description says. -/
lemma applied_of_quiet (hp : p.ConstraintsQuiet) (h : ∀ e ∈ steps, e.isQuiet = true) :
    Applied p table steps ((p.applyTo (.all table)).editAll steps)
      ((p.widened.applyTo (.all table)).editAll steps) := by
  -- For any table and steps: below, they are the table and the constraint of a relation.
  induction hp generalizing table steps with
  | @intro p quiet below ih =>
    refine .intro (appliedLevel_of_quiet h) ?_
    have hloads : ∀ q : Projection, ((q.applyTo (.all table)).editAll steps).eagerLoads =
        q.loads := by
      intro q
      rw [applyTo_all, SelectQuery.editAll_of_quiet h]
    rw [hloads, hloads, loads_widened]
    refine appliedLoads_of_forall fun relation hrelation => ?_
    rw [RelationEntry.query, RelationEntry.query, SelectQuery.editAll_append,
      SelectQuery.editAll_append]
    exact ih relation hrelation (quiet relation hrelation)

/-- The description leaves no choice of what hangs on the queries. -/
lemma AppliedLoads.unique {relations : List (RelationEntry × Projection)}
    {loads wideLoads others wideOthers : List (RelationTarget × SelectQuery)}
    (h : AppliedLoads relations loads wideLoads) (h' : AppliedLoads relations others wideOthers) :
    loads = others ∧ wideLoads = wideOthers := by
  induction relations generalizing loads wideLoads others wideOthers with
  | nil =>
    cases h
    cases h'
    exact ⟨rfl, rfl⟩
  | cons relation rest ih =>
    cases h with
    | cons constrained wideConstrained _ hrest =>
      cases h' with
      | cons constrained' wideConstrained' _ hrest' =>
        obtain ⟨hloads, hwideLoads⟩ := ih hrest hrest'
        rw [constrained, constrained', wideConstrained, wideConstrained', hloads, hwideLoads]
        exact ⟨rfl, rfl⟩

/-- The description leaves no choice of the trees. -/
lemma Applied.unique {narrow' wide' : SelectQuery} (h : Applied p table steps narrow wide)
    (h' : Applied p table steps narrow' wide') : narrow = narrow' ∧ wide = wide' := by
  cases h with
  | intro level loads =>
    cases h' with
    | intro level' loads' =>
      obtain ⟨hloads, hwideLoads⟩ := loads.unique loads'
      have hnarrow : narrow = narrow' := SelectQuery.ext
        (level.table.trans level'.table.symm) (level.columns.trans level'.columns.symm)
        (level.expressions.trans level'.expressions.symm)
        (level.conditions.trans level'.conditions.symm) (level.limit.trans level'.limit.symm)
        (level.offset.trans level'.offset.symm) hloads
      subst hnarrow
      refine ⟨rfl, SelectQuery.ext (level.wideTable.trans level'.wideTable.symm)
        (level.wideColumns.trans level'.wideColumns.symm)
        (level.wideExpressions.trans level'.wideExpressions.symm)
        (level.wideConditions.trans level'.wideConditions.symm)
        (level.wideLimit.trans level'.wideLimit.symm)
        (level.wideOffset.trans level'.wideOffset.symm) hwideLoads⟩

/-- **Widening changes nothing but columns.**  The trees of queries that a projection and the
widened one make of the query of a table are those of the description, as long as no constraint
registers relations of its own. -/
theorem applied_iff (h : p.ConstraintsQuiet) :
    Applied p table [] narrow wide ↔
      narrow = p.applyTo (.all table) ∧ wide = p.widened.applyTo (.all table) := by
  have happlied : Applied p table [] (p.applyTo (.all table)) (p.widened.applyTo (.all table)) := by
    have hnone : ∀ e ∈ ([] : List Edit), e.isQuiet = true := fun e he => absurd he List.not_mem_nil
    simpa only [SelectQuery.editAll] using applied_of_quiet h hnone
  constructor
  · exact fun h' => h'.unique happlied
  · rintro ⟨rfl, rfl⟩
    exact happlied

/-! ## A shop -/

/-- Items of an order, of which a constraint hides those that were sent back. -/
def itemsEntry : RelationEntry where
  target := ⟨"items", "items", none, "id", "order_id", true⟩
  targetType := "Item"
  page := none
  arguments := []
  constraint := some fun _ => [.whereEq "items.returned" (.bool false)]

/-- Orders of a customer, of which a constraint chooses the columns and adds an expression. -/
def ordersEntry : RelationEntry where
  target := ⟨"orders", "orders", some "all_orders", "id", "customer_id", true⟩
  targetType := "Order"
  page := some .offset
  arguments := [("limit", .int 3)]
  constraint := some fun _ =>
    [.select ["all_orders.id", "all_orders.customer_id"], .selectRaw "now()" "at"]

/-- The titles of items. -/
def itemsProjection : Projection := ⟨none, ["title", "order_id"], [], []⟩

/-- The totals of orders, with their items. -/
def ordersProjection : Projection where
  table := some "all_orders"
  columns := ["all_orders.total", "all_orders.id", "all_orders.customer_id"]
  expressions := []
  relations := [(itemsEntry, itemsProjection)]

/-- The name of a customer, with their orders. -/
def customerProjection : Projection where
  table := some "customers"
  columns := ["customers.name", "customers.id"]
  expressions := [("upper(name)", "loud")]
  relations := [(ordersEntry, ordersProjection)]

lemma constraintsQuiet_customerProjection : customerProjection.ConstraintsQuiet := by
  have hitems : itemsProjection.ConstraintsQuiet :=
    .intro (fun _ h => absurd h List.not_mem_nil) fun _ h => absurd h List.not_mem_nil
  have horders : ordersProjection.ConstraintsQuiet := by
    refine .intro ?_ ?_ <;> intro relation hrelation <;> cases List.mem_singleton.1 hrelation
    · exact List.forall_mem_singleton.2 rfl
    · exact hitems
  refine .intro ?_ ?_ <;> intro relation hrelation <;> cases List.mem_singleton.1 hrelation
  · exact List.forall_mem_cons.2 ⟨rfl, List.forall_mem_singleton.2 rfl⟩
  · exact horders

/-- Widened, the orders keep the columns that their constraint chose, and the customer and the items
have none. -/
theorem applied_iff_customerProjection :
    customerProjection.ConstraintsQuiet ∧
      Applied customerProjection "customers" [] (customerProjection.applyTo (.all "customers"))
        (customerProjection.widened.applyTo (.all "customers")) ∧
      (customerProjection.widened.applyTo (.all "customers")).columns = [] ∧
      (customerProjection.widened.applyTo (.all "customers")).eagerLoads.map
        (fun load => (load.2.columns, load.2.eagerLoads.map (·.2.columns))) =
          [(["all_orders.id", "all_orders.customer_id"], [[]])] := by
  have hquiet := constraintsQuiet_customerProjection
  exact ⟨hquiet, (applied_iff hquiet).2 ⟨rfl, rfl⟩, rfl, rfl⟩

end Projection

end GraphProjection
