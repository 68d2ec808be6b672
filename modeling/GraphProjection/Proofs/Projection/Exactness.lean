import GraphProjection.Proofs.Projection.Serving
import Mathlib.Data.List.Induction

/-!
# Projections hold nothing else

What a projection has to hold is stated field by field and without reference to how it is put
together.  A field is granted when it is requested and its privacy rule allows it; a relation is
forced when it is not requested and the policy for always-selected columns loads it nevertheless.
`Projector.Tight` says of one level of a projection that its columns, expressions and relations are
exactly those of granted fields, forced relations and columns that are always selected, each once
and in the order in which the fields are declared.  `Projector.Exact` says it of all levels that
were requested.

Main statement: **`exact_of_project`**, the projection of a selection is exact.  It is built from
the contributions of the fields (`contributes_of_contribution`): the columns of a contribution are
the one column of the field, over and over, and of the aliases, which are distinct on a described
type, no one is ever taken (`Projection.expressions_foldl_extend`).
-/

namespace GraphProjection

/-! ## Columns that are there once -/

/-- A column behind others stays unless it is among them. -/
lemma eraseDups_snoc (columns : List String) (column : String) :
    (columns ++ [column]).eraseDups =
      if column ∈ columns then columns.eraseDups else columns.eraseDups ++ [column] := by
  rw [List.eraseDups_append, List.removeAll]
  by_cases h : column ∈ columns
  · simp [h]
  · simp [h, List.eraseDups_cons]

lemma nodup_eraseDups (columns : List String) : columns.eraseDups.Nodup := by
  induction columns using List.reverseRecOn with
  | nil => exact List.nodup_nil
  | append_singleton columns column ih =>
    rw [eraseDups_snoc]
    split
    · exact ih
    · next hnew =>
      have hnew' : column ∉ columns.eraseDups := mt List.mem_eraseDups.1 hnew
      exact List.nodup_append_comm.1 (List.nodup_cons.2 ⟨hnew', ih⟩)

/-- Where every part on the right is what its left side has of its own, if anything, so are all of
them together. -/
theorem flatMap_eq_filterMap {α β γ : Type} {R : α → β → Prop} {as : List α} {bs : List β}
    (h : List.Forall₂ R as bs) {part : β → List γ} {own : α → Option γ}
    (hpart : ∀ a b, R a b → part b = (own a).toList) :
    bs.flatMap part = as.filterMap own := by
  induction h with
  | nil => rfl
  | cons hR _ ih =>
    rw [List.flatMap_cons, ih, hpart _ _ hR, List.filterMap_cons]
    split <;> next hown => rw [hown]; rfl

namespace Projection

lemma columns_addColumn (p : Projection) (column : String) :
    (p.addColumn column).columns =
      if column ∈ p.columns then p.columns else p.columns ++ [column] := by
  unfold addColumn
  simp only [List.contains_iff_mem]
  split <;> rfl

/-- Adding a column keeps that the columns are those of a list, each at its first place. -/
lemma columns_addColumn_of_eq {p : Projection} {columns : List String}
    (h : p.columns = columns.eraseDups) (column : String) :
    (p.addColumn column).columns = (columns ++ [column]).eraseDups := by
  rw [columns_addColumn, eraseDups_snoc, h]
  simp only [List.mem_eraseDups]

lemma addColumn_addColumn_self (p : Projection) (column : String) :
    (p.addColumn column).addColumn column = p.addColumn column := by
  have hmem : column ∈ (p.addColumn column).columns := (mem_columns_addColumn _ _ _).2 (.inr rfl)
  rw [addColumn, if_pos (List.contains_iff_mem.2 hmem)]

lemma columns_addColumns_of_eq {p : Projection} {columns : List String}
    (h : p.columns = columns.eraseDups) (more : List String) :
    (p.addColumns more).columns = (columns ++ more).eraseDups := by
  induction more generalizing p columns with
  | nil => simpa [addColumns] using h
  | cons column rest ih =>
    have hstep := columns_addColumn_of_eq h column
    rw [addColumns, List.foldl_cons, ← addColumns, ih hstep, List.append_assoc,
      List.singleton_append]

/-- The columns of a projection are those of its parts, each at its first place, where a part has
the columns `own` of a field. -/
theorem columns_foldl_extend {α : Type} {R : α → Contribution → Prop} {fields : List α}
    {parts : List Contribution} (hparts : List.Forall₂ R fields parts) {own : α → Option String}
    (hown : ∀ f c, R f c → ∀ p : Projection, p.addColumns c.columns = p.addColumns (own f).toList)
    {p : Projection} {columns : List String} (h : p.columns = columns.eraseDups) :
    (parts.foldl extend p).columns = (columns ++ fields.filterMap own).eraseDups := by
  induction hparts generalizing p columns with
  | nil => simpa using h
  | @cons f c fields parts hR _ ih =>
    have hcolumns : (p.extend c).columns = (columns ++ (own f).toList).eraseDups := by
      show ((p.addColumns c.columns).addExpressions c.expressions).columns = _
      rw [columns_addExpressions, hown f c hR]
      exact columns_addColumns_of_eq h (own f).toList
    rw [List.foldl_cons, ih hcolumns, List.append_assoc, List.filterMap_eq_flatMap_toList,
      List.filterMap_eq_flatMap_toList, List.flatMap_cons]

/-! ## Expressions whose aliases are free -/

lemma expressions_addExpression {p : Projection} {expression outputAlias : String}
    (h : outputAlias ∉ p.expressions.map (·.2)) :
    (p.addExpression expression outputAlias).expressions =
      p.expressions ++ [(expression, outputAlias)] := by
  rw [addExpression, if_neg]
  intro htaken
  obtain ⟨e, he, hname⟩ := List.any_eq_true.1 htaken
  exact h (List.mem_map.2 ⟨e, he, by simpa using hname⟩)

lemma expressions_addExpressions {p : Projection} {expressions : List (String × String)}
    (h : ((p.expressions ++ expressions).map (·.2)).Nodup) :
    (p.addExpressions expressions).expressions = p.expressions ++ expressions := by
  induction expressions generalizing p with
  | nil => exact (List.append_nil _).symm
  | cons e rest ih =>
    have hfree : e.2 ∉ p.expressions.map (·.2) := by
      rw [List.map_append, List.map_cons] at h
      exact fun hmem => List.disjoint_of_nodup_append h hmem List.mem_cons_self
    have hstep : (p.addExpression e.1 e.2).expressions = p.expressions ++ [e] :=
      expressions_addExpression hfree
    have hrest : (((p.addExpression e.1 e.2).expressions ++ rest).map (·.2)).Nodup := by
      rwa [hstep, List.append_assoc, List.singleton_append]
    rw [addExpressions, List.foldl_cons, ← addExpressions, ih hrest, hstep, List.append_assoc,
      List.singleton_append]

/-- The expressions of a projection are those of its parts, if no two have one alias. -/
theorem expressions_foldl_extend {p : Projection} {parts : List Contribution}
    (h : ((p.expressions ++ parts.flatMap (·.expressions)).map (·.2)).Nodup) :
    (parts.foldl extend p).expressions = p.expressions ++ parts.flatMap (·.expressions) := by
  induction parts generalizing p with
  | nil => exact (List.append_nil _).symm
  | cons c rest ih =>
    rw [List.flatMap_cons, ← List.append_assoc] at h
    have hhere : (((p.addColumns c.columns).expressions ++ c.expressions).map (·.2)).Nodup := by
      rw [expressions_addColumns]
      rw [List.map_append] at h
      exact h.of_append_left
    have hstep : (p.extend c).expressions = p.expressions ++ c.expressions := by
      show ((p.addColumns c.columns).addExpressions c.expressions).expressions = _
      rw [expressions_addExpressions hhere, expressions_addColumns]
    rw [List.foldl_cons, ih (by rwa [hstep]), hstep, List.flatMap_cons, List.append_assoc]

end Projection

namespace Projector

open FieldNode

/-! ## What a field asks for -/

/-- A field is requested and its privacy rule allows it; the arguments are those of the first field
of its name, with which all others agree. -/
def Grants (x : Projector) (nodes : List FieldNode) (f : FieldDescriptor)
    (arguments : Arguments) : Prop :=
  ∃ first rest, requested nodes f.name = first :: rest ∧ first.arguments = arguments ∧
    f.allows arguments x.services = true

/-- The rows of a relation field are those of a type. -/
def Targets (x : Projector) (f : FieldDescriptor) (target : OutputType) : Prop :=
  x.registry.describe (itemType (x.registry.envelope? f.type.namedType) f.type.namedType) =
    .ok (some target)

/-- A relation field is loaded although it is not requested: the policy asks for the columns of
its target that are always selected, and there are some. -/
structure Forces (x : Projector) (nodes : List FieldNode) (f : FieldDescriptor)
    (target : OutputType) : Prop where
  unrequested : requested nodes f.name = []
  policy : x.registry.settings.alwaysSelect = .eagerLoadRelations
  always : target.hasAlwaysColumns = true

/-- The text of an expression for some arguments: as it is written, or built from its parameters if
all of them are bound. -/
inductive Renders (x : Projector) (arguments : Arguments) : Expression → String → Prop
  | raw (sql : String) : Renders x arguments (.raw sql) sql
  | callback {parameters build bound} (h : bind parameters arguments x.services = .ok bound) :
      Renders x arguments (.callback parameters build) (build bound)

/-! ### The same, computed -/

/-- The arguments of a field that is granted. -/
def granted? (x : Projector) (nodes : List FieldNode) (f : FieldDescriptor) : Option Arguments :=
  match requested nodes f.name with
  | [] => none
  | first :: _ => if f.allows first.arguments x.services then some first.arguments else none

/-- The type that the rows of a relation field are of. -/
def target? (x : Projector) (f : FieldDescriptor) : Option OutputType :=
  match x.registry.describe
    (itemType (x.registry.envelope? f.type.namedType) f.type.namedType) with
  | .ok found => found
  | .error _ => none

/-- The target of a relation field that is forced. -/
def forced? (x : Projector) (nodes : List FieldNode) (f : FieldDescriptor) : Option OutputType :=
  if requested nodes f.name = [] ∧ x.registry.settings.alwaysSelect = .eagerLoadRelations then
    (x.target? f).filter (·.hasAlwaysColumns)
  else none

/-- The relation that a field adds. -/
def entryOf? (x : Projector) (nodes : List FieldNode) (f : FieldDescriptor) :
    Option RelationEntry :=
  match f.kind with
  | .relation r =>
    let entry (target : OutputType) (arguments : Arguments) :=
      relationEntry f r target (x.registry.envelope? f.type.namedType) arguments
    match x.granted? nodes f with
    | some arguments => (x.target? f).map (entry · arguments)
    | none => (x.forced? nodes f).map (entry · [])
  | _ => none

/-- The column that a field adds: its own, or the local key of its relation. -/
def columnOf? (x : Projector) (t : OutputType) (nodes : List FieldNode) (f : FieldDescriptor) :
    Option String :=
  match f.kind with
  | .column column =>
    if f.always || (x.granted? nodes f).isSome then some (t.qualify column) else none
  | .relation r => (x.entryOf? nodes f).map fun _ => t.qualify r.localKey
  | _ => none

/-- The expression that a field adds, and its alias. -/
def expressionOf? (x : Projector) (nodes : List FieldNode) (f : FieldDescriptor) :
    Option (String × String) :=
  match f.kind with
  | .computed outputAlias e =>
    ((x.granted? nodes f).bind (x.expressionText? e)).map (·, outputAlias)
  | _ => none

lemma granted?_eq_some_iff {x : Projector} {nodes : List FieldNode} {f : FieldDescriptor}
    {arguments : Arguments} :
    x.granted? nodes f = some arguments ↔ x.Grants nodes f arguments := by
  rw [granted?, Grants]
  cases requested nodes f.name with
  | nil => simp
  | cons first rest =>
    by_cases hallows : f.allows first.arguments x.services = true
    · simp only [hallows, if_true, Option.some.injEq, List.cons.injEq]
      constructor
      · rintro rfl
        exact ⟨first, rest, ⟨rfl, rfl⟩, rfl, hallows⟩
      · rintro ⟨first, rest, ⟨rfl, rfl⟩, harguments, -⟩
        exact harguments
    · simp only [hallows]
      constructor
      · intro h
        cases h
      · rintro ⟨first, rest, heq, rfl, hallowed⟩
        cases heq
        exact absurd hallowed hallows

lemma target?_eq_some_iff {x : Projector} {f : FieldDescriptor} {target : OutputType} :
    x.target? f = some target ↔ x.Targets f target := by
  rw [target?, Targets]
  cases x.registry.describe
      (itemType (x.registry.envelope? f.type.namedType) f.type.namedType) with
  | error e => simp
  | ok found => simp

lemma forced?_eq_some_iff {x : Projector} {nodes : List FieldNode} {f : FieldDescriptor}
    {target : OutputType} :
    x.forced? nodes f = some target ↔ x.Targets f target ∧ x.Forces nodes f target := by
  rw [forced?]
  split
  · next h =>
    rw [Option.filter_eq_some_iff, target?_eq_some_iff]
    exact and_congr_right fun _ => ⟨fun halways => ⟨h.1, h.2, halways⟩, fun hf => hf.always⟩
  · next h =>
    constructor
    · intro hnone
      cases hnone
    · rintro ⟨-, hforces⟩
      exact absurd ⟨hforces.unrequested, hforces.policy⟩ h

lemma expressionText?_eq_some_iff {x : Projector} {e : Expression} {arguments : Arguments}
    {sql : String} :
    x.expressionText? e arguments = some sql ↔ x.Renders arguments e sql := by
  constructor
  · intro h
    cases e with
    | raw text =>
      cases h
      exact .raw _
    | callback parameters build =>
      rw [expressionText?] at h
      split at h
      · next bound hbound =>
        cases h
        exact .callback hbound
      · cases h
  · intro h
    cases h with
    | raw => rfl
    | callback hbound => simp only [expressionText?, hbound]

lemma mem_expressionOf? {x : Projector} {nodes : List FieldNode} {f : FieldDescriptor}
    {sql outputAlias : String} :
    x.expressionOf? nodes f = some (sql, outputAlias) ↔
      ∃ e arguments, f.kind = .computed outputAlias e ∧ x.Grants nodes f arguments ∧
        x.Renders arguments e sql := by
  rw [expressionOf?]
  cases f.kind with
  | computed name e =>
    simp only [Option.map_eq_some_iff, Option.bind_eq_some_iff, granted?_eq_some_iff,
      expressionText?_eq_some_iff, Prod.mk.injEq, FieldKind.computed.injEq]
    constructor
    · rintro ⟨text, ⟨arguments, hgrants, hrenders⟩, rfl, rfl⟩
      exact ⟨e, arguments, ⟨rfl, rfl⟩, hgrants, hrenders⟩
    · rintro ⟨e, arguments, ⟨rfl, rfl⟩, hgrants, hrenders⟩
      exact ⟨sql, ⟨arguments, hgrants, hrenders⟩, rfl, rfl⟩
  | _ => simp

/-! ### What a contribution is made of -/

/-- The parts of a contribution are those that its field asks for, its column being `column`. -/
structure Contributes (x : Projector) (nodes : List FieldNode) (f : FieldDescriptor)
    (column : Option String) (c : Contribution) : Prop where
  columns : ∀ p : Projection, p.addColumns c.columns = p.addColumns column.toList
  expressions : c.expressions = (x.expressionOf? nodes f).toList
  relations : c.relations.map (·.1) = (x.entryOf? nodes f).toList

/-- The column that a field adds because of what is requested. -/
def requestedColumn? (x : Projector) (t : OutputType) (nodes : List FieldNode)
    (f : FieldDescriptor) : Option String :=
  match f.kind with
  | .column column => if (x.granted? nodes f).isSome then some (t.qualify column) else none
  | .relation r => (x.entryOf? nodes f).map fun _ => t.qualify r.localKey
  | _ => none

lemma exists_requested_of_granted? {x : Projector} {nodes : List FieldNode}
    {f : FieldDescriptor} {arguments : Arguments} (h : x.granted? nodes f = some arguments)
    (t : OutputType) : ∃ first rest, requested nodes f.name = first :: rest ∧
      first.arguments = arguments ∧ f.allows first.arguments x.services = true ∧
      x.ownContribution t nodes f = x.requestedContribution t f first rest := by
  obtain ⟨first, rest, hrequested, rfl, hallows⟩ := granted?_eq_some_iff.1 h
  exact ⟨first, rest, hrequested, rfl, hallows, by rw [ownContribution, hrequested]⟩

/-- A field that is not granted contributes nothing of its own, unless it is a forced relation. -/
lemma ownContribution_of_not_granted {x : Projector} {t : OutputType} {nodes : List FieldNode}
    {f : FieldDescriptor} {own : Contribution} (h : x.granted? nodes f = none)
    (hown : x.ownContribution t nodes f = .ok own) :
    own = match f.kind, x.forced? nodes f with
      | .relation r, some target => ⟨[t.qualify r.localKey], [],
          [(relationEntry f r target (x.registry.envelope? f.type.namedType) [],
            forcedProjection target r)]⟩
      | _, _ => .none := by
  rw [granted?] at h
  rw [ownContribution] at hown
  rw [forced?]
  -- A field is not granted because it is denied, or because nobody asks for it; only then can it be
  -- forced.
  cases hrequested : requested nodes f.name with
  | cons first rest =>
    rw [hrequested] at h hown
    have hdenied : ¬ f.allows first.arguments x.services = true := by
      intro hallows
      simp [hallows] at h
    simp only [requestedContribution, if_neg hdenied] at hown
    cases hown
    cases f.kind <;> simp
  | nil =>
    rw [hrequested] at hown
    simp only [forcedContribution] at hown
    cases hkind : f.kind with
    | relation r =>
      simp only [hkind] at hown
      split at hown
      · next hpolicy =>
        split at hown
        · cases hown
        · next target htarget =>
          have htargets : x.target? f = some target :=
            target?_eq_some_iff.2 (Registry.expect_eq_ok_iff.1 htarget)
          split at hown
          · next halways =>
            cases hown
            rw [if_pos ⟨rfl, hpolicy⟩, htargets, Option.filter_some, if_pos halways]
          · next halways =>
            cases hown
            rw [if_pos ⟨rfl, hpolicy⟩, htargets, Option.filter_some, if_neg halways]
      · next hpolicy =>
        cases hown
        simp [hpolicy]
    | _ =>
      simp only [hkind] at hown
      cases hown
      rfl

/-- What a field contributes of its own is what it asks for. -/
lemma contributes_of_ownContribution {x : Projector} {t : OutputType} {nodes : List FieldNode}
    {f : FieldDescriptor} {own : Contribution} (h : x.ownContribution t nodes f = .ok own) :
    x.Contributes nodes f (x.requestedColumn? t nodes f) own := by
  -- Both sides are computed case by case: by what the field is and whether it is granted.
  cases hgranted : x.granted? nodes f with
  | none =>
    have hown := ownContribution_of_not_granted hgranted h
    subst hown
    cases hkind : f.kind with
    | relation r =>
      cases hforced : x.forced? nodes f <;>
        constructor <;>
        simp [Contribution.none, requestedColumn?, expressionOf?, entryOf?, hkind, hgranted,
          hforced]
    | _ =>
      constructor <;>
        simp [Contribution.none, requestedColumn?, expressionOf?, entryOf?, hkind, hgranted]
  | some arguments =>
    obtain ⟨first, rest, hrequested, rfl, hallows, hown⟩ := exists_requested_of_granted? hgranted t
    rw [hown, requestedContribution, if_pos hallows] at h
    cases hkind : f.kind with
    | relation r =>
      rw [hkind] at h
      obtain ⟨target, child, htarget, -, rfl⟩ := relationContribution_spec h
      have htarget : x.target? f = some target := target?_eq_some_iff.2 htarget
      constructor <;>
        simp [requestedColumn?, expressionOf?, entryOf?, hkind, hgranted, htarget]
    | computed outputAlias e =>
      rw [hkind] at h
      cases h
      constructor <;>
        simp [requestedColumn?, expressionOf?, entryOf?, hkind, hgranted, Option.toList_map]
    | _ =>
      rw [hkind] at h
      cases h
      constructor <;>
        simp [Contribution.none, requestedColumn?, expressionOf?, entryOf?, hkind, hgranted]

/-- The column of a column field may be selected always, requested, or both. -/
lemma addColumns_alwaysColumns (x : Projector) (t : OutputType) (nodes : List FieldNode)
    (f : FieldDescriptor) (p : Projection) :
    (p.addColumns (alwaysColumns t f)).addColumns (x.requestedColumn? t nodes f).toList =
      p.addColumns (x.columnOf? t nodes f).toList := by
  rw [alwaysColumns, FieldDescriptor.column?, requestedColumn?, columnOf?]
  cases f.kind with
  | column column =>
    cases f.always with
    | false => rfl
    | true =>
      cases (x.granted? nodes f).isSome with
      | false => rfl
      | true => exact p.addColumn_addColumn_self (t.qualify column)
  | _ => rfl

/-- What a field contributes is what it asks for. -/
theorem contributes_of_contribution {x : Projector} {t : OutputType} {nodes : List FieldNode}
    {f : FieldDescriptor} {c : Contribution} (h : x.contribution t nodes f = .ok c) :
    x.Contributes nodes f (x.columnOf? t nodes f) c := by
  obtain ⟨own, hown, rfl⟩ := contribution_eq_ok_iff.1 h
  have hparts := contributes_of_ownContribution hown
  refine ⟨fun p => ?_, hparts.expressions, hparts.relations⟩
  have hsplit : p.addColumns (alwaysColumns t f ++ own.columns) =
      (p.addColumns (alwaysColumns t f)).addColumns own.columns := List.foldl_append
  show p.addColumns (alwaysColumns t f ++ own.columns) = _
  rw [hsplit, hparts.columns, addColumns_alwaysColumns]

/-! ## One level of a projection -/

/-- **One level of a projection holds what it has to, and nothing else.**  `matching` is the column
by which the rows are matched with their parents, where there are parents.

A column is there for a column field that is always selected or granted, for the local key of a
relation, or to match; the columns are there once, in the order in which the fields are declared,
the one to match being last unless it is there already.  The expressions are those of granted
computed fields that can be rendered, one for each alias, and the relations are those of relation
fields that are granted or forced, both in the order in which the fields are declared. -/
structure Tight (x : Projector) (t : OutputType) (nodes : List FieldNode)
    (matching : Option String) (p : Projection) : Prop where
  table : p.table = t.table
  mem_columns : ∀ column, column ∈ p.columns ↔
    (∃ f ∈ t.fields, ∃ c, f.kind = .column c ∧ column = t.qualify c ∧
      (f.always = true ∨ ∃ arguments, x.Grants nodes f arguments)) ∨
    (∃ relation ∈ p.relations, column = t.qualify relation.1.target.localKey) ∨
    matching = some column
  columns_nodup : p.columns.Nodup
  columns_order : p.columns =
    (t.fields.filterMap (x.columnOf? t nodes) ++ matching.toList).eraseDups
  mem_expressions : ∀ sql outputAlias, (sql, outputAlias) ∈ p.expressions ↔
    ∃ f ∈ t.fields, ∃ e arguments, f.kind = .computed outputAlias e ∧
      x.Grants nodes f arguments ∧ x.Renders arguments e sql
  expressions_nodup : (p.expressions.map (·.2)).Nodup
  expressions_order : (p.expressions.map (·.2)).Sublist t.aliasNames
  mem_relations : ∀ entry, entry ∈ p.relations.map (·.1) ↔
    ∃ f ∈ t.fields, ∃ r target arguments, f.kind = .relation r ∧ x.Targets f target ∧
      (x.Grants nodes f arguments ∨ (x.Forces nodes f target ∧ arguments = [])) ∧
      entry = relationEntry f r target (x.registry.envelope? f.type.namedType) arguments
  relations_nodup : (p.relations.map (·.1.target.field)).Nodup
  relations_order : (p.relations.map (·.1.target.field)).Sublist (t.fields.map (·.name))

lemma filterMap_sublist {α γ : Type} {own other : α → Option γ}
    (h : ∀ a c, own a = some c → other a = some c) (as : List α) :
    (as.filterMap own).Sublist (as.filterMap other) := by
  induction as with
  | nil => exact .slnil
  | cons a rest ih =>
    rw [List.filterMap_cons, List.filterMap_cons]
    cases hown : own a with
    | none =>
      cases other a with
      | none => exact ih
      | some c => exact ih.cons c
    | some c =>
      rw [h a c hown]
      exact ih.cons_cons c

lemma mem_entryOf? {x : Projector} {nodes : List FieldNode} {f : FieldDescriptor}
    {entry : RelationEntry} :
    x.entryOf? nodes f = some entry ↔ ∃ r target arguments, f.kind = .relation r ∧
      x.Targets f target ∧
      (x.Grants nodes f arguments ∨ (x.Forces nodes f target ∧ arguments = [])) ∧
      entry = relationEntry f r target (x.registry.envelope? f.type.namedType) arguments := by
  rw [entryOf?]
  cases hkind : f.kind with
  | relation r =>
    simp only
    cases hgranted : x.granted? nodes f with
    | some arguments =>
      have hgrants := granted?_eq_some_iff.1 hgranted
      simp only [Option.map_eq_some_iff, target?_eq_some_iff]
      constructor
      · rintro ⟨target, htarget, rfl⟩
        exact ⟨r, target, arguments, rfl, htarget, .inl hgrants, rfl⟩
      · rintro ⟨_, target, given, hr, htarget, hwhy, rfl⟩
        cases hr
        refine ⟨target, htarget, ?_⟩
        rcases hwhy with hgiven | ⟨hforces, -⟩
        · rw [granted?_eq_some_iff.2 hgiven] at hgranted
          cases hgranted
          rfl
        · -- What is requested is not forced.
          obtain ⟨first, rest, hrequested, -⟩ := hgrants
          rw [hforces.unrequested] at hrequested
          cases hrequested
    | none =>
      simp only [Option.map_eq_some_iff, forced?_eq_some_iff]
      constructor
      · rintro ⟨target, ⟨htarget, hforces⟩, rfl⟩
        exact ⟨r, target, [], rfl, htarget, .inr ⟨hforces, rfl⟩, rfl⟩
      · rintro ⟨_, target, given, hr, htarget, hwhy, rfl⟩
        cases hr
        rcases hwhy with hgiven | ⟨hforces, rfl⟩
        · rw [granted?_eq_some_iff.2 hgiven] at hgranted
          cases hgranted
        · exact ⟨target, ⟨htarget, hforces⟩, rfl⟩
  | _ => simp

lemma mem_columnOf? {x : Projector} {t : OutputType} {nodes : List FieldNode}
    {f : FieldDescriptor} {column : String} :
    x.columnOf? t nodes f = some column ↔
      (∃ c, f.kind = .column c ∧ column = t.qualify c ∧
        (f.always = true ∨ ∃ arguments, x.Grants nodes f arguments)) ∨
      ∃ entry, x.entryOf? nodes f = some entry ∧ column = t.qualify entry.target.localKey := by
  rw [columnOf?]
  cases hkind : f.kind with
  | column c =>
    have hgranted : (x.granted? nodes f).isSome = true ↔
        ∃ arguments, x.Grants nodes f arguments := by
      rw [Option.isSome_iff_exists]
      exact exists_congr fun arguments => granted?_eq_some_iff
    simp only [entryOf?, hkind, Option.ite_none_right_eq_some, Bool.or_eq_true, hgranted,
      Option.some.injEq, FieldKind.column.injEq, reduceCtorEq, false_and, exists_false, or_false]
    constructor
    · rintro ⟨hwhy, rfl⟩
      exact ⟨c, rfl, rfl, hwhy⟩
    · rintro ⟨_, rfl, rfl, hwhy⟩
      exact ⟨hwhy, rfl⟩
  | relation r =>
    have hkey : ∀ entry, x.entryOf? nodes f = some entry → entry.target.localKey = r.localKey := by
      intro entry hentry
      obtain ⟨_, target, arguments, hr, -, -, rfl⟩ := mem_entryOf?.1 hentry
      rw [hkind] at hr
      cases hr
      rfl
    simp only [Option.map_eq_some_iff, reduceCtorEq, false_and, exists_false, false_or]
    refine exists_congr fun entry => and_congr_right fun hentry => ?_
    rw [hkey entry hentry, eq_comm]
  | _ => simp [entryOf?, hkind]

lemma exists_parts_of_projectType {x : Projector} {t : OutputType} {nodes : List FieldNode}
    {p : Projection} (h : x.projectType t nodes = .ok p) :
    ∃ parts, List.Forall₂ (fun f c => x.Contributes nodes f (x.columnOf? t nodes f) c) t.fields
      parts ∧ p = .assemble t.table parts := by
  obtain ⟨-, parts, hparts, rfl⟩ := projectType_eq_ok_iff.1 h
  exact ⟨parts, hparts.imp fun f c hc => contributes_of_contribution hc, rfl⟩

/-- The columns of a projection, each at its first place. -/
lemma columns_of_projectType {x : Projector} {t : OutputType} {nodes : List FieldNode}
    {p : Projection} (h : x.projectType t nodes = .ok p) :
    p.columns = (t.fields.filterMap (x.columnOf? t nodes)).eraseDups := by
  obtain ⟨parts, hparts, rfl⟩ := exists_parts_of_projectType h
  have hstart : (Projection.ofTable t.table).columns = ([] : List String).eraseDups := rfl
  exact Projection.columns_foldl_extend hparts (fun f c hc => hc.columns) hstart

/-- The relations of a projection are those that the fields ask for. -/
lemma entries_of_projectType {x : Projector} {t : OutputType} {nodes : List FieldNode}
    {p : Projection} (h : x.projectType t nodes = .ok p) :
    p.relations.map (·.1) = t.fields.filterMap (x.entryOf? nodes) := by
  obtain ⟨parts, hparts, rfl⟩ := exists_parts_of_projectType h
  rw [Projection.relations_assemble, List.map_flatMap]
  exact flatMap_eq_filterMap hparts fun f c hc => hc.relations

/-- The aliases of the expressions that fields ask for are aliases of the type. -/
lemma aliases_sublist (x : Projector) (t : OutputType) (nodes : List FieldNode) :
    ((t.fields.filterMap (x.expressionOf? nodes)).map (·.2)).Sublist t.aliasNames := by
  rw [List.map_filterMap, OutputType.aliasNames]
  refine filterMap_sublist (fun f outputAlias h => ?_) t.fields
  obtain ⟨⟨sql, _⟩, hexpression, rfl⟩ := Option.map_eq_some_iff.1 h
  obtain ⟨e, arguments, hkind, -, -⟩ := mem_expressionOf?.1 hexpression
  rw [FieldDescriptor.alias?, hkind]

/-- The expressions of a projection are those that the fields ask for. -/
lemma expressions_of_projectType {x : Projector} {t : OutputType} {nodes : List FieldNode}
    {p : Projection} (haliases : t.aliasNames.Nodup) (h : x.projectType t nodes = .ok p) :
    p.expressions = t.fields.filterMap (x.expressionOf? nodes) := by
  obtain ⟨parts, hparts, rfl⟩ := exists_parts_of_projectType h
  have hexpressions : parts.flatMap (·.expressions) = t.fields.filterMap (x.expressionOf? nodes) :=
    flatMap_eq_filterMap hparts fun f c hc => hc.expressions
  have hnodup : ((((Projection.ofTable t.table).expressions ++
      parts.flatMap (·.expressions))).map (·.2)).Nodup := by
    rw [hexpressions]
    exact (aliases_sublist x t nodes).nodup haliases
  rw [Projection.assemble, Projection.expressions_foldl_extend hnodup, hexpressions]
  rfl

/-- The local keys of the relations are those of the relations that the fields ask for. -/
lemma localKey_of_projectType {x : Projector} {t : OutputType} {nodes : List FieldNode}
    {p : Projection} (h : x.projectType t nodes = .ok p) (column : String) :
    (∃ relation ∈ p.relations, column = t.qualify relation.1.target.localKey) ↔
      ∃ f ∈ t.fields, ∃ entry, x.entryOf? nodes f = some entry ∧
        column = t.qualify entry.target.localKey := by
  have hmem : ∀ entry, (∃ relation ∈ p.relations, relation.1 = entry) ↔
      ∃ f ∈ t.fields, x.entryOf? nodes f = some entry := by
    intro entry
    rw [← List.mem_map, entries_of_projectType h, List.mem_filterMap]
  constructor
  · rintro ⟨relation, hrelation, rfl⟩
    obtain ⟨f, hf, hentry⟩ := (hmem relation.1).1 ⟨relation, hrelation, rfl⟩
    exact ⟨f, hf, relation.1, hentry, rfl⟩
  · rintro ⟨f, hf, entry, hentry, rfl⟩
    obtain ⟨relation, hrelation, rfl⟩ := (hmem entry).2 ⟨f, hf, hentry⟩
    exact ⟨relation, hrelation, rfl⟩

/-- The projection of a selection on a described type is tight. -/
lemma tight_of_projectType {x : Projector} {name : String} {t : OutputType}
    {nodes : List FieldNode} {p : Projection} (ht : x.registry.describe name = .ok (some t))
    (h : x.projectType t nodes = .ok p) : x.Tight t nodes none p := by
  obtain ⟨d, -, hresolve⟩ := Registry.describe_eq_some_iff.1 ht
  obtain ⟨-, -, -, haliases, -⟩ := Registry.resolve_spec hresolve
  have hcolumns := columns_of_projectType h
  have hexpressions := expressions_of_projectType haliases h
  exact {
    table := table_of_projectType h
    mem_columns := fun column => by
      rw [hcolumns, List.mem_eraseDups, List.mem_filterMap, localKey_of_projectType h]
      simp only [mem_columnOf?, reduceCtorEq, or_false, and_or_left, exists_or]
    columns_nodup := hcolumns ▸ nodup_eraseDups _
    columns_order := by simpa using hcolumns
    mem_expressions := fun sql outputAlias => by
      rw [hexpressions, List.mem_filterMap]
      simp only [mem_expressionOf?]
    expressions_nodup := hexpressions ▸ (aliases_sublist x t nodes).nodup haliases
    expressions_order := hexpressions ▸ aliases_sublist x t nodes
    mem_relations := fun entry => by
      rw [entries_of_projectType h, List.mem_filterMap]
      simp only [mem_entryOf?]
    relations_nodup := nodup_slots_of_projectType ht h
    relations_order := slots_sublist_of_projectType h }

/-- A column to match the rows with their parents keeps a projection tight. -/
lemma Tight.addColumn {x : Projector} {t : OutputType} {nodes : List FieldNode}
    {p : Projection} (h : x.Tight t nodes none p) (column : String) :
    x.Tight t nodes (some column) (p.addColumn column) := by
  have hbefore : p.columns = (t.fields.filterMap (x.columnOf? t nodes)).eraseDups := by
    simpa using h.columns_order
  have horder := Projection.columns_addColumn_of_eq hbefore column
  exact {
    table := (Projection.table_addColumn p column).trans h.table
    mem_columns := fun other => by
      rw [Projection.mem_columns_addColumn, h.mem_columns, Projection.relations_addColumn]
      simp only [reduceCtorEq, or_false, or_assoc, Option.some.injEq, eq_comm]
    columns_nodup := horder ▸ nodup_eraseDups _
    columns_order := horder
    mem_expressions := by simpa using h.mem_expressions
    expressions_nodup := by simpa using h.expressions_nodup
    expressions_order := by simpa using h.expressions_order
    mem_relations := by simpa using h.mem_relations
    relations_nodup := by simpa using h.relations_nodup
    relations_order := by simpa using h.relations_order }

/-! ## All levels -/

/-- The field of a type that a relation of a projection is loaded for, what it declares, and the
type of the rows. -/
structure LoadedFor (x : Projector) (t : OutputType) (relation : RelationEntry × Projection)
    (f : FieldDescriptor) (r : RelationDescriptor) (target : OutputType) : Prop where
  mem : f ∈ t.fields
  slot : relation.1.target.field = f.name
  kind : f.kind = .relation r
  targets : x.Targets f target

/-- A projection holds what it has to and nothing else, at every level that was requested: it is
tight, a relation that was not requested has nothing but the columns of its target that are always
selected and the one to match, and the projection of one that was requested is as tight for what is
requested below it. -/
inductive Exact (x : Projector) :
    OutputType → List FieldNode → Option String → Projection → Prop
  | intro {t : OutputType} {nodes : List FieldNode} {matching : Option String} {p : Projection}
      (tight : Tight x t nodes matching p)
      (unrequested : ∀ relation ∈ p.relations, ∀ f r target, x.LoadedFor t relation f r target →
        requested nodes f.name = [] →
        relation.2.table = target.table ∧ relation.2.expressions = [] ∧
          relation.2.relations = [] ∧
          relation.2.columns =
            (target.alwaysColumns ++ [target.qualify r.foreignKey]).eraseDups)
      (below : ∀ relation ∈ p.relations, ∀ f r target first rest,
        x.LoadedFor t relation f r target → requested nodes f.name = first :: rest →
        Exact x target
          (itemNodes (x.registry.envelope? f.type.namedType) (childrenOf (first :: rest)))
          (some (target.qualify r.foreignKey)) relation.2) :
      Exact x t nodes matching p

lemma Exact.addColumn {x : Projector} {t : OutputType} {nodes : List FieldNode}
    {p : Projection} (h : x.Exact t nodes none p) (column : String) :
    x.Exact t nodes (some column) (p.addColumn column) := by
  cases h with
  | intro tight unrequested below =>
    rw [← Projection.relations_addColumn p column] at unrequested below
    exact .intro (tight.addColumn column) unrequested below

/-- A forced relation has the always-selected columns of its target and the one to match. -/
lemma columns_forcedProjection (target : OutputType) (r : RelationDescriptor) :
    (forcedProjection target r).columns =
      (target.alwaysColumns ++ [target.qualify r.foreignKey]).eraseDups := by
  refine Projection.columns_addColumn_of_eq ?_ (target.qualify r.foreignKey)
  have hnone : (Projection.ofTable target.table).columns = ([] : List String).eraseDups := rfl
  exact Projection.columns_addColumns_of_eq hnone target.alwaysColumns

/-- What is known of the origin of a relation that is loaded for a field. -/
lemma LoadedFor.origin {x : Projector} {name : String} {t : OutputType}
    {nodes : List FieldNode} {p : Projection} (ht : x.registry.describe name = .ok (some t))
    (h : x.projectType t nodes = .ok p) {relation : RelationEntry × Projection}
    (hrelation : relation ∈ p.relations) {f : FieldDescriptor} {r : RelationDescriptor}
    {target : OutputType} (hfor : x.LoadedFor t relation f r target) :
    Origin x nodes f r target relation := by
  obtain ⟨g, hg, r', target', horigin, -⟩ := exists_origin_of_mem h hrelation
  have hgf : g = f :=
    Registry.eq_of_name_eq ht hg hfor.mem (horigin.field.symm.trans hfor.slot)
  subst hgf
  have hr : r' = r := FieldKind.relation.inj (horigin.kind.symm.trans hfor.kind)
  have htarget : target' = target := by
    have heq := horigin.described.symm.trans hfor.targets
    cases heq
    rfl
  subst hr htarget
  exact horigin

/-- The projection of what is selected of a described type is exact. -/
lemma exact_of_projectType {x : Projector} {name : String} {t : OutputType}
    {nodes : List FieldNode} {p : Projection} (ht : x.registry.describe name = .ok (some t))
    (h : x.projectType t nodes = .ok p) : x.Exact t nodes none p := by
  -- Types may refer to each other in circles; selections get less deep.
  induction hdepth : depths nodes using Nat.strongRecOn generalizing name t nodes p with
  | _ n ih =>
  subst hdepth
  refine .intro (tight_of_projectType ht h) ?_ ?_
  · intro relation hrelation f r target hfor hnone
    have horigin := hfor.origin ht h hrelation
    rcases horigin.below with ⟨-, hforced⟩ | ⟨first, rest, -, hrequested, -⟩
    · rw [hforced]
      exact ⟨by simp [forcedProjection, Projection.ofTable],
        by simp [forcedProjection, Projection.ofTable],
        by simp [forcedProjection, Projection.ofTable], columns_forcedProjection target r⟩
    · rw [hnone] at hrequested
      cases hrequested
  · intro relation hrelation f r target first rest hfor hrequested
    have horigin := hfor.origin ht h hrelation
    rcases horigin.below with ⟨hnone, -⟩ | ⟨first', rest', child, hrequested', hchild, hcolumn⟩
    · rw [hnone] at hrequested
      cases hrequested
    · obtain ⟨rfl, rfl⟩ := List.cons.inj (hrequested.symm.trans hrequested')
      rw [hcolumn]
      refine Exact.addColumn (ih _ ?_ hfor.targets hchild rfl) _
      have hne : first :: rest ≠ [] := List.cons_ne_nil first rest
      have hsubset : first :: rest ⊆ nodes := hrequested ▸ requested_subset nodes f.name
      exact Nat.lt_of_le_of_lt (depths_itemNodes_le _ _) (depths_childrenOf_lt hsubset hne)

/-- **The projection of a selection is exact.**  At every level that was requested it holds what
`Tight` says: the columns of fields that are always selected or granted, local keys and the column
to match; the expressions that can be rendered; the relations that are granted or forced; all of
them once and in the order of declaration.

The selection is one on a registered type, or on an envelope of one, of which the items are
projected. -/
theorem exact_of_project {x : Projector} {type : String} {nodes : List FieldNode}
    {t : OutputType} {p : Projection}
    (ht : x.registry.describe (itemType (x.registry.envelope? type) type) = .ok (some t))
    (h : x.project type nodes = .ok p) :
    x.Exact t (itemNodes (x.registry.envelope? type) nodes) none p := by
  rw [project, ht] at h
  simp only at h
  split at h
  · cases h
  · exact exact_of_projectType ht h

/-! ## A magazine -/

/-- Articles with what projections treat in different ways: a column that is always selected, a
hidden one, an expression whose parameter may be missing, and a relation that may be forced. -/
def magazine : Registry where
  settings := { alwaysSelect := .eagerLoadRelations }
  types := [
    { name := "Article"
      table := some "articles"
      fields := [
        { name := "id", type := "ID!", always := true },
        { name := "title", type := "String", column := some "headline" },
        { name := "notes", type := "String", privacy := some fun _ _ => false },
        { name := "words", type := "Int", expression := some (.raw "words(body)") },
        { name := "excerpt", type := "String"
          expression := some (.callback [⟨"length", .scalar "Int"⟩] fun _ => "left(body)") },
        { name := "replies", type := "[Reply!]!"
          relation := some { localKey := some "id", foreignKey := some "article_id" } },
        { name := "author", type := "Author"
          relation := some { localKey := some "author_id", foreignKey := some "id" } }] },
    { name := "Reply"
      table := some "replies"
      fields := [{ name := "body", type := "String" }] },
    { name := "Author"
      table := some "authors"
      fields := [
        { name := "id", type := "ID!", always := true },
        { name := "name", type := "String" }] }]

/-- The replies are requested twice, the author not at all. -/
def magazineSelection : List FieldNode :=
  [⟨none, "replies", [], ⟨1, 3⟩, [⟨none, "body", [], ⟨1, 13⟩, []⟩]⟩,
    ⟨none, "title", [], ⟨1, 20⟩, []⟩, ⟨none, "notes", [], ⟨1, 26⟩, []⟩,
    ⟨none, "excerpt", [], ⟨1, 32⟩, []⟩, ⟨none, "words", [], ⟨1, 40⟩, []⟩,
    ⟨some "more", "replies", [], ⟨1, 46⟩, [⟨none, typename, [], ⟨1, 62⟩, []⟩]⟩]

/-- The articles of a magazine have an exact projection: the notes are hidden, the excerpt has no
length, and the author is loaded for the column that is always selected. -/
theorem exact_of_project_magazine :
    ∃ t p, magazine.describe "Article" = .ok (some t) ∧
      project ⟨magazine, fun _ => none⟩ "Article" magazineSelection = .ok p ∧
      Exact ⟨magazine, fun _ => none⟩ t magazineSelection none p ∧
      p.columns = ["articles.id", "articles.headline", "articles.author_id"] ∧
      p.expressions = [("words(body)", "words")] ∧
      p.relations.map (fun relation => (relation.1.target.field, relation.2.columns)) =
        [("replies", ["replies.body", "replies.article_id"]), ("author", ["authors.id"])] := by
  have henvelope : magazine.envelope? "Article" = none := by decide +kernel
  have hexpected : (magazine.expect "Article").isOk = true := by decide +kernel
  -- A projection holds callbacks and cannot be compared as a whole; its columns and relations can.
  have hcontent : (project ⟨magazine, fun _ => none⟩ "Article" magazineSelection).toOption.map
      (fun p => (p.columns, p.expressions,
        p.relations.map fun relation => (relation.1.target.field, relation.2.columns))) =
      some (["articles.id", "articles.headline", "articles.author_id"], [("words(body)", "words")],
        [("replies", ["replies.body", "replies.article_id"]), ("author", ["authors.id"])]) := by
    decide +kernel
  obtain ⟨t, ht⟩ : ∃ t, magazine.describe "Article" = .ok (some t) := by
    cases hexpect : magazine.expect "Article" with
    | error e =>
      rw [hexpect] at hexpected
      cases hexpected
    | ok t => exact ⟨t, Registry.expect_eq_ok_iff.1 hexpect⟩
  cases hp : project ⟨magazine, fun _ => none⟩ "Article" magazineSelection with
  | error e =>
    rw [hp] at hcontent
    cases hcontent
  | ok p =>
    rw [hp] at hcontent
    obtain ⟨hcolumns, hrest⟩ := Prod.mk.inj (Option.some.inj hcontent)
    obtain ⟨hexpressions, hrelations⟩ := Prod.mk.inj hrest
    have hitem : magazine.describe (itemType (magazine.envelope? "Article") "Article") =
        .ok (some t) := by
      rw [henvelope]
      exact ht
    have hexact := exact_of_project hitem hp
    rw [henvelope] at hexact
    exact ⟨t, p, ht, rfl, hexact, hcolumns, hexpressions, hrelations⟩

end Projector

end GraphProjection
