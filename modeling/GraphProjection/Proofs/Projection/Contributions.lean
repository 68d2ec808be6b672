import GraphProjection.Projection.OfSelection
import Mathlib.Data.List.Forall2

/-!
# What each field contributes to a projection

`Projector.addField` adds what a field needs to what the fields before it needed.  What it adds
depends on the field and the selection alone, not on what is there already, so a projection can
be read field by field: `Projector.contribution` is the part of one field, `Projection.extend` puts
a part on top of a projection, and `projectType_eq_ok_iff` says that a projection is its parts put
together in the order of declaration.

What is asked of a whole projection then follows from its parts: what a part holds is in the
whole (`columns_subset`, `aliases_subset`), and the relations of the whole are those of the parts
one after the other (`relations_assemble`).
-/

namespace GraphProjection

section Related

variable {α β : Type} {R : α → β → Prop} {as : List α} {bs : List β}

lemma exists_right_of_mem (h : List.Forall₂ R as bs) {a : α} (ha : a ∈ as) :
    ∃ b ∈ bs, R a b := by
  induction h with
  | nil => cases ha
  | cons hR _ ih =>
    rcases List.mem_cons.1 ha with rfl | ha
    · exact ⟨_, List.mem_cons_self, hR⟩
    · obtain ⟨b, hb, hab⟩ := ih ha
      exact ⟨b, List.mem_cons_of_mem _ hb, hab⟩

lemma exists_left_of_mem (h : List.Forall₂ R as bs) {b : β} (hb : b ∈ bs) :
    ∃ a ∈ as, R a b := by
  obtain ⟨a, ha, hab⟩ := exists_right_of_mem h.flip hb
  exact ⟨a, ha, hab⟩

end Related

section Results

variable {ε α β : Type} {x : Except ε α}

lemma exists_ok_of_isOk (h : x.isOk = true) : ∃ a, x = .ok a := by
  cases x with
  | error e => cases h
  | ok a => exact ⟨a, rfl⟩

lemma exists_ok_of_map_toOption {f : α → β} {b : β} (h : x.toOption.map f = some b) :
    ∃ a, x = .ok a ∧ f a = b := by
  cases x with
  | error e => cases h
  | ok a => exact ⟨a, rfl, Option.some.inj h⟩

end Results

/-! ## Parts of a projection -/

/-- What one field adds to a projection. -/
structure Contribution where
  columns : List String
  expressions : List (String × String)
  relations : List (RelationEntry × Projection)

namespace Contribution

/-- Nothing. -/
def none : Contribution := ⟨[], [], []⟩

/-- A contribution with columns in front. -/
def behind (c : Contribution) (columns : List String) : Contribution :=
  { c with columns := columns ++ c.columns }

end Contribution

namespace Projection

/-- Adds expressions in order, those with a new alias. -/
def addExpressions (p : Projection) (expressions : List (String × String)) : Projection :=
  expressions.foldl (fun p e => p.addExpression e.1 e.2) p

/-- A projection with a contribution put on top. -/
def extend (p : Projection) (c : Contribution) : Projection :=
  { (p.addColumns c.columns).addExpressions c.expressions with
    relations := p.relations ++ c.relations }

/-- The projection that contributions add up to. -/
def assemble (table : Option String) (parts : List Contribution) : Projection :=
  parts.foldl extend (ofTable table)

/-! ### Single additions -/

@[simp] lemma table_addColumn (p : Projection) (column : String) :
    (p.addColumn column).table = p.table := by
  unfold addColumn
  split <;> rfl

@[simp] lemma expressions_addColumn (p : Projection) (column : String) :
    (p.addColumn column).expressions = p.expressions := by
  unfold addColumn
  split <;> rfl

@[simp] lemma relations_addColumn (p : Projection) (column : String) :
    (p.addColumn column).relations = p.relations := by
  unfold addColumn
  split <;> rfl

@[simp] lemma mem_columns_addColumn (p : Projection) (column other : String) :
    other ∈ (p.addColumn column).columns ↔ other ∈ p.columns ∨ other = column := by
  unfold addColumn
  split
  · next h =>
    rw [List.contains_iff_mem] at h
    exact ⟨.inl, fun ho => ho.elim id fun e => e ▸ h⟩
  · simp

@[simp] lemma table_addExpression (p : Projection) (expression outputAlias : String) :
    (p.addExpression expression outputAlias).table = p.table := by
  unfold addExpression
  split <;> rfl

@[simp] lemma columns_addExpression (p : Projection) (expression outputAlias : String) :
    (p.addExpression expression outputAlias).columns = p.columns := by
  unfold addExpression
  split <;> rfl

@[simp] lemma relations_addExpression (p : Projection) (expression outputAlias : String) :
    (p.addExpression expression outputAlias).relations = p.relations := by
  unfold addExpression
  split <;> rfl

@[simp] lemma mem_aliases_addExpression (p : Projection)
    (expression outputAlias name : String) :
    name ∈ (p.addExpression expression outputAlias).expressions.map (·.2) ↔
      name ∈ p.expressions.map (·.2) ∨ name = outputAlias := by
  unfold addExpression
  split
  · next h =>
    obtain ⟨e, he, hname⟩ := List.any_eq_true.1 h
    have hmem : outputAlias ∈ p.expressions.map (·.2) :=
      List.mem_map.2 ⟨e, he, by simpa using hname⟩
    exact ⟨.inl, fun ho => ho.elim id fun e => e ▸ hmem⟩
  · simp

/-! ### Additions in order -/

@[simp] lemma table_addColumns (p : Projection) (columns : List String) :
    (p.addColumns columns).table = p.table := by
  induction columns generalizing p with
  | nil => rfl
  | cons column rest ih => exact (ih _).trans (table_addColumn p column)

@[simp] lemma expressions_addColumns (p : Projection) (columns : List String) :
    (p.addColumns columns).expressions = p.expressions := by
  induction columns generalizing p with
  | nil => rfl
  | cons column rest ih => exact (ih _).trans (expressions_addColumn p column)

@[simp] lemma relations_addColumns (p : Projection) (columns : List String) :
    (p.addColumns columns).relations = p.relations := by
  induction columns generalizing p with
  | nil => rfl
  | cons column rest ih => exact (ih _).trans (relations_addColumn p column)

@[simp] lemma mem_columns_addColumns (p : Projection) (columns : List String)
    (other : String) :
    other ∈ (p.addColumns columns).columns ↔ other ∈ p.columns ∨ other ∈ columns := by
  induction columns generalizing p with
  | nil => simp [addColumns]
  | cons column rest ih =>
    have hstep := ih (p.addColumn column)
    rw [mem_columns_addColumn] at hstep
    rw [addColumns, List.foldl_cons, ← addColumns, hstep, List.mem_cons, or_assoc]

lemma columns_addExpressions (p : Projection) (expressions : List (String × String)) :
    (p.addExpressions expressions).columns = p.columns := by
  induction expressions generalizing p with
  | nil => rfl
  | cons e rest ih => exact (ih _).trans (columns_addExpression p e.1 e.2)

lemma table_addExpressions (p : Projection) (expressions : List (String × String)) :
    (p.addExpressions expressions).table = p.table := by
  induction expressions generalizing p with
  | nil => rfl
  | cons e rest ih => exact (ih _).trans (table_addExpression p e.1 e.2)

lemma mem_aliases_addExpressions (p : Projection) (expressions : List (String × String))
    (name : String) :
    name ∈ (p.addExpressions expressions).expressions.map (·.2) ↔
      name ∈ p.expressions.map (·.2) ∨ name ∈ expressions.map (·.2) := by
  induction expressions generalizing p with
  | nil => simp [addExpressions]
  | cons e rest ih =>
    have hstep := ih (p.addExpression e.1 e.2)
    rw [mem_aliases_addExpression] at hstep
    rw [addExpressions, List.foldl_cons, ← addExpressions, hstep, List.map_cons, List.mem_cons,
      or_assoc]

/-! ### Contributions in order -/

@[simp] lemma table_extend (p : Projection) (c : Contribution) :
    (p.extend c).table = p.table := by
  rw [extend]
  exact (table_addExpressions _ _).trans (table_addColumns _ _)

@[simp] lemma mem_columns_extend (p : Projection) (c : Contribution) (name : String) :
    name ∈ (p.extend c).columns ↔ name ∈ p.columns ∨ name ∈ c.columns := by
  rw [extend]
  show name ∈ ((p.addColumns c.columns).addExpressions c.expressions).columns ↔ _
  rw [columns_addExpressions, mem_columns_addColumns]

@[simp] lemma mem_aliases_extend (p : Projection) (c : Contribution) (name : String) :
    name ∈ (p.extend c).expressions.map (·.2) ↔
      name ∈ p.expressions.map (·.2) ∨ name ∈ c.expressions.map (·.2) := by
  rw [extend]
  show name ∈ ((p.addColumns c.columns).addExpressions c.expressions).expressions.map (·.2) ↔ _
  rw [mem_aliases_addExpressions, expressions_addColumns]

@[simp] lemma relations_extend (p : Projection) (c : Contribution) :
    (p.extend c).relations = p.relations ++ c.relations := rfl

lemma table_foldl_extend (p : Projection) (parts : List Contribution) :
    (parts.foldl extend p).table = p.table := by
  induction parts generalizing p with
  | nil => rfl
  | cons c rest ih => exact (ih _).trans (table_extend p c)

lemma mem_columns_foldl_extend (p : Projection) (parts : List Contribution) (name : String) :
    name ∈ (parts.foldl extend p).columns ↔
      name ∈ p.columns ∨ ∃ c ∈ parts, name ∈ c.columns := by
  induction parts generalizing p with
  | nil => simp
  | cons c rest ih =>
    rw [List.foldl_cons, ih, mem_columns_extend, or_assoc]
    simp

lemma mem_aliases_foldl_extend (p : Projection) (parts : List Contribution) (name : String) :
    name ∈ (parts.foldl extend p).expressions.map (·.2) ↔
      name ∈ p.expressions.map (·.2) ∨ ∃ c ∈ parts, name ∈ c.expressions.map (·.2) := by
  induction parts generalizing p with
  | nil => simp
  | cons c rest ih =>
    rw [List.foldl_cons, ih, mem_aliases_extend, or_assoc]
    simp

lemma relations_foldl_extend (p : Projection) (parts : List Contribution) :
    (parts.foldl extend p).relations = p.relations ++ parts.flatMap (·.relations) := by
  induction parts generalizing p with
  | nil => simp
  | cons c rest ih =>
    rw [List.foldl_cons, ih, relations_extend, List.flatMap_cons, List.append_assoc]

@[simp] lemma table_assemble (table : Option String) (parts : List Contribution) :
    (assemble table parts).table = table :=
  table_foldl_extend _ parts

/-- The columns of a projection are those of its parts. -/
lemma mem_columns_assemble {table : Option String} {parts : List Contribution}
    {name : String} :
    name ∈ (assemble table parts).columns ↔ ∃ c ∈ parts, name ∈ c.columns := by
  rw [assemble, mem_columns_foldl_extend]
  simp [ofTable]

/-- The aliases of a projection are those of its parts. -/
lemma mem_aliases_assemble {table : Option String} {parts : List Contribution}
    {name : String} :
    name ∈ (assemble table parts).expressions.map (·.2) ↔
      ∃ c ∈ parts, name ∈ c.expressions.map (·.2) := by
  rw [assemble, mem_aliases_foldl_extend]
  simp [ofTable]

/-- The relations of a projection are those of its parts, in order. -/
theorem relations_assemble (table : Option String) (parts : List Contribution) :
    (assemble table parts).relations = parts.flatMap (·.relations) := by
  rw [assemble, relations_foldl_extend]
  rfl

end Projection

/-! ## The contribution of a field -/

namespace Projector

open FieldNode

/-- The column of a field that is always selected. -/
def alwaysColumns (t : OutputType) (f : FieldDescriptor) : List String :=
  match f.column? with
  | some column => if f.always then [t.qualify column] else []
  | none => []

/-- What a field contributes that was not requested. -/
def forcedContribution (x : Projector) (t : OutputType) (f : FieldDescriptor) :
    Except ProjectionError Contribution :=
  match f.kind with
  | .relation r =>
    if x.registry.settings.alwaysSelect = .eagerLoadRelations then
      let envelope := x.registry.envelope? f.type.namedType
      match x.registry.expect (itemType envelope f.type.namedType) with
      | .error e => .error (.registry e)
      | .ok target =>
        if target.hasAlwaysColumns then
          .ok ⟨[t.qualify r.localKey], [],
            [(relationEntry f r target envelope [], forcedProjection target r)]⟩
        else .ok .none
    else .ok .none
  | _ => .ok .none

/-- What a requested relation contributes; `inner` are the fields below it. -/
def relationContribution (x : Projector) (t : OutputType) (f : FieldDescriptor)
    (r : RelationDescriptor) (arguments : Arguments) (inner : List FieldNode) :
    Except ProjectionError Contribution :=
  let envelope := x.registry.envelope? f.type.namedType
  match checkEnvelope envelope f.type.namedType inner with
  | .error e => .error e
  | .ok () =>
    match x.registry.expect (itemType envelope f.type.namedType) with
    | .error e => .error (.registry e)
    | .ok target =>
      match x.projectType target (itemNodes envelope inner) with
      | .error e => .error e
      | .ok child =>
        .ok ⟨[t.qualify r.localKey], [],
          [(relationEntry f r target envelope arguments,
            child.addColumn (target.qualify r.foreignKey))]⟩

/-- What a field contributes that is requested by `first` and by the fields of its name after
it. -/
def requestedContribution (x : Projector) (t : OutputType) (f : FieldDescriptor)
    (first : FieldNode) (rest : List FieldNode) : Except ProjectionError Contribution :=
  if f.allows first.arguments x.services then
    match f.kind with
    | .column column => .ok ⟨[t.qualify column], [], []⟩
    | .computed outputAlias e =>
      .ok ⟨[], (x.expressionText? e first.arguments).toList.map (·, outputAlias), []⟩
    | .relation r => x.relationContribution t f r first.arguments (childrenOf (first :: rest))
    | .notSelectable => .ok .none
  else .ok .none

/-- What a field contributes besides its column that is always selected. -/
def ownContribution (x : Projector) (t : OutputType) (nodes : List FieldNode)
    (f : FieldDescriptor) : Except ProjectionError Contribution :=
  match requested nodes f.name with
  | [] => x.forcedContribution t f
  | first :: rest => x.requestedContribution t f first rest

/-- What a field contributes to the projection of a selection. -/
def contribution (x : Projector) (t : OutputType) (nodes : List FieldNode)
    (f : FieldDescriptor) : Except ProjectionError Contribution :=
  (x.ownContribution t nodes f).map (Contribution.behind · (alwaysColumns t f))

/-! ### Adding a field is adding its contribution -/

lemma extend_behind (p : Projection) (c : Contribution) (columns : List String) :
    p.extend (c.behind columns) = (p.addColumns columns).extend c := by
  have hcolumns : p.addColumns (columns ++ c.columns) =
      (p.addColumns columns).addColumns c.columns := List.foldl_append
  simp only [Projection.extend, Contribution.behind, hcolumns,
    Projection.relations_addColumns]

lemma addAlways_eq (t : OutputType) (f : FieldDescriptor) (p : Projection) :
    addAlways t f p = p.addColumns (alwaysColumns t f) := by
  unfold addAlways alwaysColumns
  cases f.column? with
  | none => rfl
  | some column => cases f.always <;> rfl

/-- A projection whose relations are written once more. -/
lemma with_relations_eq {p : Projection} {relations : List (RelationEntry × Projection)}
    (h : p.relations = relations) : { p with relations := relations } = p := by
  subst h
  cases p
  rfl

lemma extend_none (p : Projection) : p.extend .none = p :=
  with_relations_eq (List.append_nil _).symm

lemma extend_column (p : Projection) (column : String) :
    p.extend ⟨[column], [], []⟩ = p.addColumn column :=
  with_relations_eq ((Projection.relations_addColumn p column).trans (List.append_nil _).symm)

lemma extend_expression (p : Projection) (expression outputAlias : String) :
    p.extend ⟨[], [(expression, outputAlias)], []⟩ = p.addExpression expression outputAlias :=
  with_relations_eq
    ((Projection.relations_addExpression p expression outputAlias).trans
      (List.append_nil _).symm)

lemma extend_relation (p : Projection) (column : String) (entry : RelationEntry)
    (child : Projection) :
    p.extend ⟨[column], [], [(entry, child)]⟩ = (p.addColumn column).addRelation entry child := by
  simp [Projection.extend, Projection.addColumns, Projection.addExpressions,
    Projection.addRelation]

lemma addForced_eq (x : Projector) (t : OutputType) (f : FieldDescriptor) (p : Projection) :
    x.addForced t f p = (x.forcedContribution t f).map p.extend := by
  unfold addForced forcedContribution
  cases f.kind with
  | relation r =>
    simp only
    split
    · cases x.registry.expect
          (itemType (x.registry.envelope? f.type.namedType) f.type.namedType) with
      | error e => rfl
      | ok target =>
        simp only
        split
        · exact congrArg Except.ok (extend_relation p _ _ _).symm
        · exact congrArg Except.ok (extend_none p).symm
    · exact congrArg Except.ok (extend_none p).symm
  | _ => exact congrArg Except.ok (extend_none p).symm

lemma addRelation_eq (x : Projector) (t : OutputType) (f : FieldDescriptor)
    (r : RelationDescriptor) (arguments : Arguments) (inner : List FieldNode) (p : Projection) :
    x.addRelation t f r arguments inner (fun target below _ => x.projectType target below) p =
      (x.relationContribution t f r arguments inner).map p.extend := by
  unfold addRelation relationContribution
  simp only
  cases checkEnvelope (x.registry.envelope? f.type.namedType) f.type.namedType inner with
  | error e => rfl
  | ok _ =>
    cases x.registry.expect
        (itemType (x.registry.envelope? f.type.namedType) f.type.namedType) with
    | error e => rfl
    | ok target =>
      simp only
      cases x.projectType target
          (itemNodes (x.registry.envelope? f.type.namedType) inner) with
      | error e => rfl
      | ok child => exact congrArg Except.ok (extend_relation p _ _ _).symm

/-- Adding a field to a projection puts its contribution on top. -/
lemma addField_eq (x : Projector) (t : OutputType) (nodes : List FieldNode) (p : Projection)
    (f : FieldDescriptor) :
    x.addField t nodes (fun target below _ => x.projectType target below) p f =
      (x.contribution t nodes f).map p.extend := by
  have hbehind : (x.contribution t nodes f).map p.extend =
      (x.ownContribution t nodes f).map (p.addColumns (alwaysColumns t f)).extend := by
    unfold contribution
    cases x.ownContribution t nodes f with
    | error e => rfl
    | ok c => exact congrArg Except.ok (extend_behind p c _)
  -- The columns that are always selected come first, whatever else the field contributes.
  rw [hbehind, addField, addAlways_eq]
  split
  · next h =>
    have hown : x.ownContribution t nodes f = x.forcedContribution t f := by
      rw [ownContribution, h]
    rw [hown, addForced_eq]
  · next first rest h =>
    have hown : x.ownContribution t nodes f = x.requestedContribution t f first rest := by
      rw [ownContribution, h]
    rw [hown, requestedContribution]
    cases f.allows first.arguments x.services with
    | false => exact congrArg Except.ok (extend_none _).symm
    | true =>
      simp only [if_true]
      cases f.kind with
      | column column => exact congrArg Except.ok (extend_column _ _).symm
      | computed outputAlias e =>
        simp only
        cases x.expressionText? e first.arguments with
        | none => exact congrArg Except.ok (extend_none _).symm
        | some sql => exact congrArg Except.ok (extend_expression _ _ _).symm
      | relation r => exact addRelation_eq x t f r _ _ _
      | notSelectable => exact congrArg Except.ok (extend_none _).symm

/-! ## Whole projections -/

lemma foldlM_extend_eq_ok_iff {α ε : Type} (part : α → Except ε Contribution)
    (fields : List α) (p q : Projection) :
    fields.foldlM (fun p f => (part f).map p.extend) p = .ok q ↔
      ∃ parts, List.Forall₂ (fun f c => part f = .ok c) fields parts ∧
        q = parts.foldl Projection.extend p := by
  -- The projection grows along the fold, so the induction is for any that it starts from.
  induction fields generalizing p with
  | nil =>
    constructor
    · intro h
      cases h
      exact ⟨[], .nil, rfl⟩
    · rintro ⟨parts, hparts, rfl⟩
      cases hparts
      rfl
  | cons f rest ih =>
    rw [List.foldlM_cons]
    cases hf : part f with
    | error e =>
      constructor
      · intro h
        cases h
      · rintro ⟨parts, hparts, -⟩
        cases hparts with
        | cons hc _ => rw [hf] at hc; cases hc
    | ok c =>
      have hstep := ih (p.extend c)
      constructor
      · intro h
        obtain ⟨parts, hparts, rfl⟩ := hstep.1 h
        exact ⟨c :: parts, .cons hf hparts, rfl⟩
      · rintro ⟨parts, hparts, rfl⟩
        cases hparts with
        | cons hc hrest =>
          rw [hf] at hc
          cases hc
          exact hstep.2 ⟨_, hrest, rfl⟩

/-- A projection of a type is what its fields contribute, put together in the order in which they
are declared; and there is one when the selection is in order and every field contributes. -/
theorem projectType_eq_ok_iff {x : Projector} {t : OutputType} {nodes : List FieldNode}
    {p : Projection} :
    x.projectType t nodes = .ok p ↔
      t.checkFields nodes [] = .ok () ∧
        ∃ parts, List.Forall₂ (fun f c => x.contribution t nodes f = .ok c) t.fields parts ∧
          p = .assemble t.table parts := by
  have hstep : x.addField t nodes (fun target below _ => x.projectType target below) =
      fun p f => (x.contribution t nodes f).map p.extend := by
    funext p f
    exact addField_eq x t nodes p f
  rw [projectType]
  cases t.checkFields nodes [] with
  | error e => simp
  | ok _ =>
    simp only [true_and, hstep]
    exact foldlM_extend_eq_ok_iff _ _ _ _

end Projector

end GraphProjection
