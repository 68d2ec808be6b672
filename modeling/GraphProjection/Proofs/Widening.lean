import GraphProjection.Proofs.Projection.Agreement

/-!
# Queries that differ in their columns

A projection and the widened one do the same to a query but for the columns: the widened one
leaves every column in place.  `Narrowed` relates the two queries that come out, and the relation
survives whatever is done to both queries alike by someone who registers no relations: the
filters and the hook of a root field, the constraint of a relation, a limit, an offset and the
condition that asks for the keys of other rows.
-/

namespace GraphProjection

/-- Whether a step registers no relation. -/
def Edit.isQuiet : Edit → Bool
  | .load _ _ => false
  | _ => true

/-- The query of a relation, with the projection of its rows and its constraint. -/
def RelationEntry.query (entry : RelationEntry) (child : Projection) : SelectQuery :=
  (SelectQuery.all entry.target.queriedTable).editAll (child.edits ++ entry.constraintEdits)

namespace Projection

/-- The relations that a projection registers. -/
def loads (p : Projection) : List (RelationTarget × SelectQuery) :=
  p.relations.map fun relation => (relation.1.target, relation.1.query relation.2)

/-! ## Widened projections -/

lemma widenedRelations_eq (relations : List (RelationEntry × Projection)) :
    widenedRelations relations =
      relations.map fun relation => (relation.1, relation.2.widened) := by
  induction relations with
  | nil => rfl
  | cons relation rest ih => rw [widenedRelations, ih, List.map_cons]

@[simp] lemma columns_widened (p : Projection) : p.widened.columns = [] := by
  cases p
  rw [widened]

@[simp] lemma expressions_widened (p : Projection) :
    p.widened.expressions = p.expressions := by
  cases p
  rw [widened]

@[simp] lemma relations_widened (p : Projection) :
    p.widened.relations = p.relations.map fun relation => (relation.1, relation.2.widened) := by
  cases p
  rw [widened, widenedRelations_eq]

lemma relation?_widened (p : Projection) (name : String) :
    p.widened.relation? name =
      (p.relation? name).map fun relation => (relation.1, relation.2.widened) := by
  rw [relation?, relations_widened, List.find?_map, relation?]
  rfl

lemma loads_widened (p : Projection) :
    p.widened.loads =
      p.relations.map fun relation =>
        (relation.1.target, relation.1.query relation.2.widened) := by
  rw [loads, relations_widened, List.map_map]
  rfl

/-! ## What a projection does to a query -/

lemma editAll_selectRaw (q : SelectQuery) (expressions : List (String × String)) :
    q.editAll (expressions.map fun e => .selectRaw e.1 e.2) =
      { q with expressions := q.expressions ++ expressions } := by
  induction expressions generalizing q with
  | nil =>
    cases q
    simp [SelectQuery.editAll]
  | cons e rest ih =>
    rw [List.map_cons, SelectQuery.editAll, ih, SelectQuery.edit, SelectQuery.selectRaw]
    simp

lemma editAll_relationEdits (q : SelectQuery)
    (relations : List (RelationEntry × Projection)) :
    q.editAll (relationEdits relations) =
      { q with eagerLoads := q.eagerLoads ++
          relations.map fun relation => (relation.1.target, relation.1.query relation.2) } := by
  induction relations generalizing q with
  | nil =>
    cases q
    simp [relationEdits, SelectQuery.editAll]
  | cons relation rest ih =>
    rw [relationEdits, SelectQuery.editAll, ih, SelectQuery.edit, SelectQuery.addLoad]
    simp [RelationEntry.query]

/-- A projection replaces the columns if it has any, and adds its expressions and relations. -/
lemma editAll_edits (p : Projection) (q : SelectQuery) :
    q.editAll p.edits =
      { q with
        columns := if p.columns.isEmpty then q.columns else p.columns
        expressions := q.expressions ++ p.expressions
        eagerLoads := q.eagerLoads ++ p.loads } := by
  obtain ⟨table, columns, expressions, relations⟩ := p
  rw [edits, SelectQuery.editAll_append, SelectQuery.editAll_append, editAll_selectRaw,
    editAll_relationEdits]
  cases columns with
  | nil => simp [SelectQuery.editAll, loads]
  | cons column rest => simp [SelectQuery.editAll, SelectQuery.edit, SelectQuery.select, loads]

/-! ## Narrow and wide queries -/

/-- A narrow and a wide query for a projection: they ask for the same rows with the same
expressions and relations, and the columns are the same, or those of the projection against all
columns. -/
structure Narrowed (p : Projection) (narrow wide : SelectQuery) : Prop where
  table : narrow.table = wide.table
  conditions : narrow.conditions = wide.conditions
  limit : narrow.limit = wide.limit
  offset : narrow.offset = wide.offset
  expressions : narrow.expressions = wide.expressions
  columns : narrow.columns = wide.columns ∨ narrow.columns = p.columns ∧ wide.columns = []
  aliases : ∀ name ∈ p.expressions.map (·.2), name ∈ narrow.expressions.map (·.2)
  loads : narrow.eagerLoads = p.loads
  wideLoads : wide.eagerLoads = p.widened.loads

lemma narrowed_editAll_edits (p : Projection) (table : String) :
    Narrowed p ((SelectQuery.all table).editAll p.edits)
      ((SelectQuery.all table).editAll p.widened.edits) := by
  rw [editAll_edits, editAll_edits]
  refine ⟨rfl, rfl, rfl, rfl, ?_, ?_, ?_, rfl, rfl⟩
  · rw [expressions_widened]
  · refine .inr ⟨?_, ?_⟩
    · cases hcolumns : p.columns with
      | nil => rfl
      | cons column rest => rfl
    · rw [columns_widened]
      rfl
  · exact fun name hname => hname

namespace Narrowed

variable {p : Projection} {narrow wide : SelectQuery}

lemma addCondition (h : Narrowed p narrow wide) (condition : Condition) :
    Narrowed p (narrow.addCondition condition) (wide.addCondition condition) :=
  { h with conditions := congrArg (· ++ [condition]) h.conditions }

lemma withLimit (h : Narrowed p narrow wide) (limit : Nat) :
    Narrowed p (narrow.withLimit limit) (wide.withLimit limit) :=
  { h with limit := rfl }

lemma withOffset (h : Narrowed p narrow wide) (offset : Nat) :
    Narrowed p (narrow.withOffset offset) (wide.withOffset offset) :=
  { h with offset := rfl }

lemma edit (h : Narrowed p narrow wide) {e : Edit} (he : e.isQuiet = true) :
    Narrowed p (narrow.edit e) (wide.edit e) := by
  cases e with
  | select columns =>
    rw [SelectQuery.edit, SelectQuery.edit]
    exact { h with columns := .inl rfl }
  | selectRaw expression outputAlias =>
    rw [SelectQuery.edit, SelectQuery.edit]
    refine { h with
      expressions := congrArg (· ++ [(expression, outputAlias)]) h.expressions
      aliases := fun name hname => ?_ }
    rw [SelectQuery.selectRaw, List.map_append]
    exact List.mem_append_left _ (h.aliases name hname)
  | whereEq column value =>
    rw [SelectQuery.edit, SelectQuery.edit]
    exact h.addCondition _
  | load target edits => cases he

/-- Whoever does the same to both queries and registers no relation leaves them a narrow and a
wide one. -/
theorem editAll (h : Narrowed p narrow wide) {edits : List Edit}
    (hedits : ∀ e ∈ edits, e.isQuiet = true) :
    Narrowed p (narrow.editAll edits) (wide.editAll edits) := by
  induction edits generalizing narrow wide with
  | nil =>
    rw [SelectQuery.editAll, SelectQuery.editAll]
    exact h
  | cons e rest ih =>
    rw [SelectQuery.editAll, SelectQuery.editAll]
    exact ih (h.edit (hedits e List.mem_cons_self))
      fun other hother => hedits other (List.mem_cons_of_mem _ hother)

end Narrowed

/-- The query of a relation is narrow against that of the relation with its projection widened. -/
lemma narrowed_query {entry : RelationEntry} (child : Projection)
    (h : ∀ e ∈ entry.constraintEdits, e.isQuiet = true) :
    Narrowed child (entry.query child) (entry.query child.widened) := by
  rw [RelationEntry.query, RelationEntry.query, SelectQuery.editAll_append,
    SelectQuery.editAll_append]
  exact (narrowed_editAll_edits child _).editAll h

end Projection

end GraphProjection
