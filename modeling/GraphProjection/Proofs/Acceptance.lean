import GraphProjection.Proofs.Resolution
import Mathlib.Data.List.Forall2

/-!
# Declarations that are accepted

What declarations have to be is said here attribute by attribute, without the order in which the
attributes are looked at and without what is found on the way: `FieldDeclaration.WellFormed` of a
field, `TypeDeclaration.WellFormed` of a type and `Declarations.WellFormed` of all types.  Beside it
stands what a declaration means: `FieldDeclaration.Selects` is the kind that the attributes add up
to, with the name of the field wherever a name was left out, and `Means` is a descriptor, or a type,
that says what was declared and nothing else.

A declaration resolves exactly when it is well formed, and then to what it means
(`FieldDeclaration.resolve_eq_ok_iff`, `TypeDeclaration.resolve_eq_ok_iff`).  Main statement:
**`build_iff_wellFormed`**, the same of all declarations together.
-/

namespace GraphProjection

/-! ## Names that relations can lead to -/

/-- A name is that of one of some types, or of an envelope of one. -/
def IsTarget (types : List String) (name : String) : Prop :=
  name ∈ types ∨ ∃ kind : PageKind, ∃ item ∈ types, name = kind.typeName item

namespace Registry

lemma isRegistered_eq_true_iff {r : Registry} {name : String} :
    r.isRegistered name = true ↔ name ∈ r.typeNames := by
  rw [isRegistered, declaration?, List.find?_isSome, typeNames, List.mem_map]
  refine exists_congr fun d => and_congr_right fun _ => ?_
  exact beq_iff_eq

lemma isSome_envelope?_iff {r : Registry} {name : String} :
    (r.envelope? name).isSome = true ↔
      ∃ kind : PageKind, ∃ item ∈ r.typeNames, name = kind.typeName item := by
  rw [envelope?, List.findSome?_isSome_iff]
  constructor
  · rintro ⟨kind, -, hitem⟩
    rw [itemOf?, Option.isSome_map] at hitem
    obtain ⟨item, hfound⟩ := Option.isSome_iff_exists.1 hitem
    obtain ⟨hname, hregistered⟩ := Option.filter_eq_some_iff.1 hfound
    exact ⟨kind, item, isRegistered_eq_true_iff.1 hregistered, PageKind.item?_eq_some_iff.1 hname⟩
  · rintro ⟨kind, item, hitem, hname⟩
    refine ⟨kind, by cases kind <;> decide, ?_⟩
    rw [itemOf?, Option.isSome_map, PageKind.item?_eq_some_iff.2 hname, Option.filter_some,
      if_pos (isRegistered_eq_true_iff.2 hitem)]
    rfl

lemma isOutputType_eq_true_iff {r : Registry} {name : String} :
    r.isOutputType name = true ↔ IsTarget r.typeNames name := by
  rw [isOutputType, Bool.or_eq_true, isRegistered_eq_true_iff, isSome_envelope?_iff, IsTarget]

end Registry

/-! ## Fields -/

namespace FieldDeclaration

/-- The kind that the attributes of a field select.  A relation, an alias and a column have the name
of the field where no other name is given. -/
inductive Selects (d : FieldDeclaration) : FieldKind → Prop
  | relation {relation : RelationDeclaration} {localKey foreignKey : String}
      (hrelation : d.relation = some relation) (hexpression : d.expression = none)
      (hlocal : relation.localKey = some localKey)
      (hforeign : relation.foreignKey = some foreignKey) :
      Selects d (.relation
        ⟨relation.name.getD d.name, localKey, foreignKey, relation.constraint⟩)
  | computed {expression : Expression} (hrelation : d.relation = none)
      (hexpression : d.expression = some expression) :
      Selects d (.computed (d.outputAlias.getD d.name) expression)
  | notSelectable (hrelation : d.relation = none) (hexpression : d.expression = none)
      (hselectable : d.selectable = false) : Selects d .notSelectable
  | column (hrelation : d.relation = none) (hexpression : d.expression = none)
      (hselectable : d.selectable = true) : Selects d (.column (d.column.getD d.name))

/-- A descriptor says what is declared of a field, and nothing else. -/
structure Means (d : FieldDeclaration) (f : FieldDescriptor) : Prop where
  name : f.name = d.name
  type : TypeRef.parse? d.type = some f.type
  kind : d.Selects f.kind
  always : f.always = d.always
  privacy : f.privacy = d.privacy
  resolver : f.resolver = d.resolver

/-- The attributes of a field make sense together, given the names of all types. -/
structure WellFormed (types : List String) (d : FieldDeclaration) : Prop where
  type : ∃ t, TypeRef.parse? d.type = some t
  outputAlias : d.outputAlias.isSome = true → d.expression.isSome = true
  oneSource : d.relation = none ∨ d.expression = none
  stored : d.relation.isSome = true ∨ d.expression.isSome = true →
    d.selectable = true ∧ d.column = none
  notSelectable : d.selectable = false → d.column = none
  keys : ∀ relation, d.relation = some relation →
    relation.localKey.isSome = true ∧ relation.foreignKey.isSome = true
  target : ∀ relation t, d.relation = some relation → TypeRef.parse? d.type = some t →
    IsTarget types t.namedType
  always : d.always = true → d.relation = none ∧ d.expression = none ∧ d.selectable = true

lemma Selects.unique {d : FieldDeclaration} {k k' : FieldKind} (h : d.Selects k)
    (h' : d.Selects k') : k = k' := by
  cases h <;> cases h' <;> simp_all

lemma Means.unique {d : FieldDeclaration} {f g : FieldDescriptor} (hf : d.Means f)
    (hg : d.Means g) : f = g := by
  have htype : f.type = g.type := Option.some.inj (hf.type.symm.trans hg.type)
  have hkind : f.kind = g.kind := hf.kind.unique hg.kind
  obtain ⟨fname, ftype, fkind, falways, fprivacy, fresolver⟩ := f
  obtain ⟨gname, gtype, gkind, galways, gprivacy, gresolver⟩ := g
  cases htype
  cases hkind
  cases hf.name.trans hg.name.symm
  cases hf.always.trans hg.always.symm
  cases hf.privacy.trans hg.privacy.symm
  cases hf.resolver.trans hg.resolver.symm
  rfl

/-! ### Kinds -/

variable {isOutputType : String → Bool} {d : FieldDeclaration} {k : FieldKind}

lemma relationKind_eq_ok_iff {type : TypeRef} {relation : RelationDeclaration} :
    d.relationKind isOutputType type relation = .ok k ↔
      (d.selectable = true ∧ d.column = none ∧ isOutputType type.namedType = true) ∧
        ∃ localKey foreignKey, relation.localKey = some localKey ∧
          relation.foreignKey = some foreignKey ∧
          k = .relation
            ⟨relation.name.getD d.name, localKey, foreignKey, relation.constraint⟩ := by
  rw [relationKind]
  cases d.selectable <;> cases d.column <;> cases isOutputType type.namedType <;>
    cases relation.localKey <;> cases relation.foreignKey <;> simp [eq_comm]

lemma computedKind_eq_ok_iff {expression : Expression} :
    d.computedKind expression = .ok k ↔
      (d.selectable = true ∧ d.column = none) ∧
        k = .computed (d.outputAlias.getD d.name) expression := by
  rw [computedKind]
  cases d.selectable <;> cases d.column <;> simp [eq_comm]

lemma plainKind_eq_ok_iff :
    d.plainKind = .ok k ↔
      (d.selectable = true ∧ k = .column (d.column.getD d.name)) ∨
        (d.selectable = false ∧ d.column = none ∧ k = .notSelectable) := by
  rw [plainKind]
  cases d.selectable <;> cases d.column <;> simp [eq_comm]

/-- The kind that the relation or the expression of a field gives it, or the lack of both. -/
def sourceKind (isOutputType : String → Bool) (d : FieldDeclaration) (type : TypeRef) :
    Except FieldFault FieldKind :=
  match d.relation, d.expression with
  | some _, some _ => .error .relationWithExpression
  | some relation, none => d.relationKind isOutputType type relation
  | none, some expression => d.computedKind expression
  | none, none => d.plainKind

lemma resolveKind_eq (isOutputType : String → Bool) (d : FieldDeclaration) (type : TypeRef) :
    d.resolveKind isOutputType type =
      if d.outputAlias.isSome && d.expression.isNone then .error .aliasWithoutExpression
      else
        match d.sourceKind isOutputType type with
        | .error fault => .error fault
        | .ok (.column column) => .ok (.column column)
        | .ok kind => if d.always then .error .alwaysWithoutColumn else .ok kind := rfl

/-- Beyond its source, a field must not have an alias without an expression, nor be always selected
without being a column. -/
theorem resolveKind_eq_ok_iff {type : TypeRef} :
    d.resolveKind isOutputType type = .ok k ↔
      d.sourceKind isOutputType type = .ok k ∧
        (d.outputAlias.isSome = true → d.expression.isSome = true) ∧
        (d.always = true → ∃ column, k = .column column) := by
  rw [resolveKind_eq]
  have halias : (d.outputAlias.isSome && d.expression.isNone) = true ↔
      ¬ (d.outputAlias.isSome = true → d.expression.isSome = true) := by
    cases d.outputAlias <;> cases d.expression <;> simp
  by_cases hallowed : d.outputAlias.isSome = true → d.expression.isSome = true
  · rw [if_neg (halias.not.2 (not_not.2 hallowed))]
    cases d.sourceKind isOutputType type with
    | error fault => simp
    | ok kind => cases kind <;> cases d.always <;> grind
  · rw [if_pos (halias.2 hallowed)]
    simp [hallowed]

/-- A source is in order exactly when what is declared beside it agrees with it, and then it gives
the kind that the attributes select. -/
theorem sourceKind_eq_ok_iff {type : TypeRef} :
    d.sourceKind isOutputType type = .ok k ↔
      ((d.relation.isSome = true ∨ d.expression.isSome = true →
          d.selectable = true ∧ d.column = none) ∧
        (d.selectable = false → d.column = none) ∧
        (d.relation.isSome = true → isOutputType type.namedType = true)) ∧ d.Selects k := by
  rw [sourceKind]
  -- The cases are those of the source: a relation, an expression, or neither. Both at once are
  -- refused.
  cases hrelation : d.relation with
  | some relation =>
    cases hexpression : d.expression with
    | some expression =>
      refine ⟨fun h => (by cases h), fun ⟨_, hselects⟩ => ?_⟩
      cases hselects <;> simp_all
    | none =>
      simp only [relationKind_eq_ok_iff]
      constructor
      · rintro ⟨⟨hselectable, hcolumn, htarget⟩, localKey, foreignKey, hlocal, hforeign, rfl⟩
        exact ⟨⟨fun _ => ⟨hselectable, hcolumn⟩, fun _ => hcolumn, fun _ => htarget⟩,
          .relation hrelation hexpression hlocal hforeign⟩
      · rintro ⟨⟨hstored, -, htarget⟩, hselects⟩
        obtain ⟨hselectable, hcolumn⟩ := hstored (.inl rfl)
        refine ⟨⟨hselectable, hcolumn, htarget rfl⟩, ?_⟩
        cases hselects with
        | relation hother _ hlocal hforeign =>
          cases hrelation.symm.trans hother
          exact ⟨_, _, hlocal, hforeign, rfl⟩
        | computed hother => simp [hrelation] at hother
        | notSelectable hother => simp [hrelation] at hother
        | column hother => simp [hrelation] at hother
  | none =>
    cases hexpression : d.expression with
    | some expression =>
      simp only [computedKind_eq_ok_iff]
      constructor
      · rintro ⟨⟨hselectable, hcolumn⟩, rfl⟩
        exact ⟨⟨fun _ => ⟨hselectable, hcolumn⟩, fun _ => hcolumn, fun h => nomatch h⟩,
          .computed hrelation hexpression⟩
      · rintro ⟨⟨hstored, -⟩, hselects⟩
        refine ⟨hstored (.inr rfl), ?_⟩
        exact hselects.unique (.computed hrelation hexpression)
    | none =>
      simp only [plainKind_eq_ok_iff]
      constructor
      · rintro (⟨hselectable, rfl⟩ | ⟨hselectable, hcolumn, rfl⟩)
        · exact ⟨⟨by simp, by simp [hselectable], by simp⟩,
            .column hrelation hexpression hselectable⟩
        · exact ⟨⟨by simp, fun _ => hcolumn, by simp⟩,
            .notSelectable hrelation hexpression hselectable⟩
      · rintro ⟨⟨-, hcolumn, -⟩, hselects⟩
        cases hselects with
        | relation hother => simp [hrelation] at hother
        | computed _ hother => simp [hexpression] at hother
        | notSelectable _ _ hselectable =>
          exact .inr ⟨hselectable, hcolumn hselectable, rfl⟩
        | column _ _ hselectable => exact .inl ⟨hselectable, rfl⟩

/-! ### Descriptors -/

/-- What a well-formed declaration has selects a kind. -/
lemma WellFormed.exists_selects {types : List String} (h : d.WellFormed types) :
    ∃ k, d.Selects k := by
  cases hrelation : d.relation with
  | some relation =>
    have hexpression : d.expression = none := h.oneSource.resolve_left (by simp [hrelation])
    obtain ⟨hlocal, hforeign⟩ := h.keys relation hrelation
    obtain ⟨localKey, hlocal⟩ := Option.isSome_iff_exists.1 hlocal
    obtain ⟨foreignKey, hforeign⟩ := Option.isSome_iff_exists.1 hforeign
    exact ⟨_, .relation hrelation hexpression hlocal hforeign⟩
  | none =>
    cases hexpression : d.expression with
    | some expression => exact ⟨_, .computed hrelation hexpression⟩
    | none =>
      cases hselectable : d.selectable with
      | false => exact ⟨_, .notSelectable hrelation hexpression hselectable⟩
      | true => exact ⟨_, .column hrelation hexpression hselectable⟩

/-- A kind that is selected settles the relation and the expression. -/
lemma Selects.oneSource (h : d.Selects k) :
    (d.relation = none ∨ d.expression = none) ∧
      (∀ relation, d.relation = some relation →
        relation.localKey.isSome = true ∧ relation.foreignKey.isSome = true) ∧
      ((∃ column, k = .column column) ↔
        d.relation = none ∧ d.expression = none ∧ d.selectable = true) := by
  cases h with
  | relation hrelation hexpression hlocal hforeign =>
    refine ⟨.inr hexpression, fun other hother => ?_, by simp [hrelation]⟩
    cases hrelation.symm.trans hother
    exact ⟨by rw [hlocal]; rfl, by rw [hforeign]; rfl⟩
  | computed hrelation hexpression =>
    exact ⟨.inl hrelation, fun other hother => by simp [hrelation] at hother, by simp [hexpression]⟩
  | notSelectable hrelation hexpression hselectable =>
    exact ⟨.inl hrelation, fun other hother => by simp [hrelation] at hother, by simp [hselectable]⟩
  | column hrelation hexpression hselectable =>
    exact ⟨.inl hrelation, fun other hother => by simp [hrelation] at hother,
      by simp [hrelation, hexpression, hselectable]⟩

lemma resolve_eq_ok_iff_exists {type : String} {f : FieldDescriptor} :
    d.resolve isOutputType type = .ok f ↔
      ∃ t, TypeRef.parse? d.type = some t ∧ ∃ kind, d.resolveKind isOutputType t = .ok kind ∧
        f = ⟨d.name, t, kind, d.always, d.privacy, d.resolver⟩ := by
  rw [resolve, TypeRef.parse]
  cases TypeRef.parse? d.type with
  | none => simp
  | some t =>
    cases hkind : d.resolveKind isOutputType t with
    | error fault => simp [hkind]
    | ok kind => simp [hkind, eq_comm]

/-- **A declared field resolves exactly when it is well formed, and then to what it means.** -/
theorem resolve_eq_ok_iff {types : List String}
    (htypes : ∀ name, isOutputType name = true ↔ IsTarget types name) {type : String}
    {f : FieldDescriptor} :
    d.resolve isOutputType type = .ok f ↔ d.WellFormed types ∧ d.Means f := by
  rw [resolve_eq_ok_iff_exists]
  constructor
  · rintro ⟨t, ht, kind, hkind, rfl⟩
    obtain ⟨hsource, halias, halways⟩ := resolveKind_eq_ok_iff.1 hkind
    obtain ⟨⟨hstored, hcolumn, htarget⟩, hselects⟩ := sourceKind_eq_ok_iff.1 hsource
    obtain ⟨honeSource, hkeys, hiscolumn⟩ := hselects.oneSource
    refine ⟨⟨⟨t, ht⟩, halias, honeSource, hstored, hcolumn, hkeys, ?_, ?_⟩,
      ⟨rfl, ht, hselects, rfl, rfl, rfl⟩⟩
    · intro relation t' hrelation ht'
      cases ht.symm.trans ht'
      exact (htypes _).1 (htarget (by rw [hrelation]; rfl))
    · exact fun h => hiscolumn.1 (halways h)
  · rintro ⟨hformed, hmeans⟩
    have htarget : d.relation.isSome = true → isOutputType f.type.namedType = true := by
      intro hsome
      obtain ⟨relation, hrelation⟩ := Option.isSome_iff_exists.1 hsome
      exact (htypes _).2 (hformed.target relation f.type hrelation hmeans.type)
    refine ⟨f.type, hmeans.type, f.kind, resolveKind_eq_ok_iff.2 ⟨?_, hformed.outputAlias, ?_⟩, ?_⟩
    · exact sourceKind_eq_ok_iff.2
        ⟨⟨hformed.stored, hformed.notSelectable, htarget⟩, hmeans.kind⟩
    · exact fun h => hmeans.kind.oneSource.2.2.2 (hformed.always h)
    · exact hmeans.unique ⟨rfl, hmeans.type, hmeans.kind, rfl, rfl, rfl⟩

lemma WellFormed.exists_means {types : List String} (h : d.WellFormed types) :
    ∃ f, d.Means f := by
  obtain ⟨t, ht⟩ := h.type
  obtain ⟨k, hk⟩ := h.exists_selects
  exact ⟨⟨d.name, t, k, d.always, d.privacy, d.resolver⟩, rfl, ht, hk, rfl, rfl, rfl⟩

/-- The alias of a field that is computed. -/
def alias? (d : FieldDeclaration) : Option String :=
  d.expression.map fun _ => d.outputAlias.getD d.name

/-- The column of a field that reads one. -/
def column? (d : FieldDeclaration) : Option String :=
  if d.relation.isNone && d.expression.isNone && d.selectable then some (d.column.getD d.name)
  else none

lemma Means.alias?_eq {f : FieldDescriptor} (h : d.Means f) : f.alias? = d.alias? := by
  obtain ⟨name, type, kind, always, privacy, resolver⟩ := f
  rw [FieldDescriptor.alias?, alias?]
  cases h.kind <;> simp_all

lemma Means.column?_eq {f : FieldDescriptor} (h : d.Means f) : f.column? = d.column? := by
  obtain ⟨name, type, kind, always, privacy, resolver⟩ := f
  rw [FieldDescriptor.column?, column?]
  cases h.kind <;> simp_all

end FieldDeclaration

/-! ## Types -/

namespace TypeDeclaration

/-- The columns that a type declares. -/
def columnNames (d : TypeDeclaration) : List String := d.fields.filterMap (·.column?)

/-- The aliases that a type declares. -/
def aliasNames (d : TypeDeclaration) : List String := d.fields.filterMap (·.alias?)

/-- The fields of a type are well formed and have distinct names, and their aliases are distinct and
none of them is a column. -/
structure WellFormed (types : List String) (d : TypeDeclaration) : Prop where
  fields : ∀ f ∈ d.fields, f.WellFormed types
  names : (d.fields.map (·.name)).Nodup
  aliases : d.aliasNames.Nodup
  apart : ∀ name ∈ d.aliasNames, name ∉ d.columnNames

/-- An output type says what is declared of a type: it has the declared fields in their order, each
of them once. -/
structure Means (d : TypeDeclaration) (t : OutputType) : Prop where
  name : t.name = d.name
  table : t.table = d.table
  fields : List.Forall₂ FieldDeclaration.Means d.fields t.fields

variable {isOutputType : String → Bool} {d : TypeDeclaration} {t : OutputType}

/-- What is read off every field is the same of declarations and of what they mean. -/
lemma filterMap_eq_of_means {α : Type} {ds : List FieldDeclaration} {fs : List FieldDescriptor}
    (h : List.Forall₂ FieldDeclaration.Means ds fs) {declared : FieldDeclaration → Option α}
    {described : FieldDescriptor → Option α} (heq : ∀ d f, d.Means f → described f = declared d) :
    fs.filterMap described = ds.filterMap declared := by
  induction h with
  | nil => rfl
  | cons hd _ ih => rw [List.filterMap_cons, List.filterMap_cons, heq _ _ hd, ih]

lemma Means.names_eq (h : d.Means t) : t.fields.map (·.name) = d.fields.map (·.name) := by
  rw [← List.filterMap_eq_map, ← List.filterMap_eq_map]
  exact filterMap_eq_of_means h.fields fun _ _ hf => congrArg some hf.name

lemma Means.aliasNames_eq (h : d.Means t) : t.aliasNames = d.aliasNames :=
  filterMap_eq_of_means h.fields fun _ _ hf => hf.alias?_eq

lemma Means.columnNames_eq (h : d.Means t) : t.columnNames = d.columnNames :=
  filterMap_eq_of_means h.fields fun _ _ hf => hf.column?_eq

/-- One step of resolving fields: the field resolves, its name is new, and the others resolve behind
it. -/
theorem resolveFields_cons_eq_ok_iff {type : String} {d : FieldDeclaration}
    {rest : List FieldDeclaration} {known fields : List FieldDescriptor} :
    resolveFields isOutputType type (d :: rest) known = .ok fields ↔
      ∃ f, d.resolve isOutputType type = .ok f ∧ f.name ∉ known.map (·.name) ∧
        resolveFields isOutputType type rest (known ++ [f]) = .ok fields := by
  rw [resolveFields]
  cases d.resolve isOutputType type with
  | error e => simp
  | ok f =>
    have hany : (known.any (·.name == f.name)) = true ↔ f.name ∈ known.map (·.name) := by
      simp
    simp only [hany, Except.ok.injEq, exists_eq_left']
    split
    · next hused => exact ⟨fun h => (by cases h), fun h => absurd hused h.1⟩
    · next hfresh => exact ⟨fun h => ⟨hfresh, h⟩, fun h => h.2⟩

/-- Names are distinct and new exactly when the first is new and those after it are distinct, and
new with it among the known ones. -/
theorem nodup_fresh_cons_iff {name : String} {names known : List String} :
    ((name :: names).Nodup ∧ ∀ n ∈ name :: names, n ∉ known) ↔
      name ∉ known ∧ names.Nodup ∧ ∀ n ∈ names, n ∉ known ++ [name] := by
  simp only [List.nodup_cons, List.forall_mem_cons, List.mem_append, List.mem_singleton, not_or]
  constructor
  · rintro ⟨⟨hnew, hnodup⟩, hfresh, hrest⟩
    exact ⟨hfresh, hnodup, fun n hn => ⟨hrest n hn, fun heq => hnew (heq ▸ hn)⟩⟩
  · rintro ⟨hfresh, hnodup, hrest⟩
    exact ⟨⟨fun hmem => (hrest name hmem).2 rfl, hnodup⟩, hfresh, fun n hn => (hrest n hn).1⟩

/-- Fields are resolved one by one behind those that are known, and none may have a name that was
used before. -/
theorem resolveFields_eq_ok_iff {type : String} {ds : List FieldDeclaration}
    {known fields : List FieldDescriptor} :
    resolveFields isOutputType type ds known = .ok fields ↔
      ∃ more, fields = known ++ more ∧
        List.Forall₂ (fun d f => d.resolve isOutputType type = .ok f) ds more ∧
        (more.map (·.name)).Nodup ∧ ∀ name ∈ more.map (·.name), name ∉ known.map (·.name) := by
  -- The known fields grow with every step, so the induction is for any of them.
  induction ds generalizing known with
  | nil =>
    rw [resolveFields]
    constructor
    · intro h
      cases h
      exact ⟨[], (List.append_nil _).symm, .nil, List.nodup_nil,
        fun name hname => absurd hname List.not_mem_nil⟩
    · rintro ⟨more, rfl, hmore, -⟩
      cases hmore
      rw [List.append_nil]
  | cons d rest ih =>
    simp only [resolveFields_cons_eq_ok_iff, ih, List.map_append, List.map_cons, List.map_nil]
    constructor
    · rintro ⟨f, hf, hfresh, more, rfl, hmore, hnames⟩
      exact ⟨f :: more, List.append_cons .. ▸ rfl, .cons hf hmore,
        nodup_fresh_cons_iff.2 ⟨hfresh, hnames⟩⟩
    · rintro ⟨all, rfl, hall, hnames⟩
      cases hall with
      | @cons _ f _ more hf hmore =>
        obtain ⟨hfresh, hnames⟩ := nodup_fresh_cons_iff.1 hnames
        exact ⟨f, hf, hfresh, more, List.append_cons .., hmore, hnames⟩

/-- The fields of a type resolve exactly when each of them is well formed and no two have one
name. -/
theorem resolveFields_nil_eq_ok_iff {types : List String}
    (htypes : ∀ name, isOutputType name = true ↔ IsTarget types name) {type : String}
    {ds : List FieldDeclaration} {fields : List FieldDescriptor} :
    resolveFields isOutputType type ds [] = .ok fields ↔
      ((∀ d ∈ ds, d.WellFormed types) ∧ List.Forall₂ FieldDeclaration.Means ds fields) ∧
        (fields.map (·.name)).Nodup := by
  rw [resolveFields_eq_ok_iff, ← List.forall₂_and_left]
  simp only [FieldDeclaration.resolve_eq_ok_iff htypes, List.nil_append]
  constructor
  · rintro ⟨more, rfl, hmore, hnodup, -⟩
    exact ⟨hmore, hnodup⟩
  · rintro ⟨hmore, hnodup⟩
    exact ⟨fields, rfl, hmore, hnodup, fun name _ => List.not_mem_nil⟩

lemma resolve_eq_ok_iff_exists :
    d.resolve isOutputType = .ok t ↔
      ∃ fields, resolveFields isOutputType d.name d.fields [] = .ok fields ∧
        repeatedAlias? (OutputType.columnNames ⟨d.name, d.table, fields⟩)
          (OutputType.aliasNames ⟨d.name, d.table, fields⟩) [] = none ∧
        t = ⟨d.name, d.table, fields⟩ := by
  rw [resolve]
  cases resolveFields isOutputType d.name d.fields [] with
  | error e => simp
  | ok fields =>
    simp only [OutputType.columnNames, OutputType.aliasNames, Except.ok.injEq, exists_eq_left']
    cases repeatedAlias? (fields.filterMap (·.column?)) (fields.filterMap (·.alias?)) [] with
    | some name => simp
    | none => simp [eq_comm]

/-- **A declared type resolves exactly when it is well formed, and then to what it means.** -/
theorem resolve_eq_ok_iff {types : List String}
    (htypes : ∀ name, isOutputType name = true ↔ IsTarget types name) :
    d.resolve isOutputType = .ok t ↔ d.WellFormed types ∧ d.Means t := by
  rw [resolve_eq_ok_iff_exists]
  simp only [resolveFields_nil_eq_ok_iff htypes]
  constructor
  · rintro ⟨fields, ⟨⟨hformed, hfields⟩, hnodup⟩, hnone, rfl⟩
    have hmeans : d.Means ⟨d.name, d.table, fields⟩ := ⟨rfl, rfl, hfields⟩
    rw [hmeans.columnNames_eq, hmeans.aliasNames_eq, repeatedAlias?_eq_none_iff] at hnone
    exact ⟨⟨hformed, hmeans.names_eq ▸ hnodup, hnone.1, fun name hname => (hnone.2 name hname).1⟩,
      hmeans⟩
  · rintro ⟨hformed, hmeans⟩
    have ht : t = ⟨d.name, d.table, t.fields⟩ := by
      rw [← hmeans.name, ← hmeans.table]
    refine ⟨t.fields, ⟨⟨hformed.fields, hmeans.fields⟩, hmeans.names_eq ▸ hformed.names⟩, ?_, ht⟩
    rw [← ht, hmeans.columnNames_eq, hmeans.aliasNames_eq, repeatedAlias?_eq_none_iff]
    exact ⟨hformed.aliases, fun name hname => ⟨hformed.apart name hname, List.not_mem_nil⟩⟩

lemma WellFormed.exists_means {types : List String} (h : d.WellFormed types) :
    ∃ t, d.Means t := by
  have hfields : ∀ ds : List FieldDeclaration, (∀ f ∈ ds, f.WellFormed types) →
      ∃ fs, List.Forall₂ FieldDeclaration.Means ds fs := by
    intro ds hds
    induction ds with
    | nil => exact ⟨[], .nil⟩
    | cons f rest ih =>
      obtain ⟨g, hg⟩ := (hds f List.mem_cons_self).exists_means
      obtain ⟨gs, hgs⟩ := ih fun f hf => hds f (List.mem_cons_of_mem _ hf)
      exact ⟨g :: gs, .cons hg hgs⟩
  obtain ⟨fs, hfs⟩ := hfields d.fields h.fields
  exact ⟨⟨d.name, d.table, fs⟩, rfl, rfl, hfs⟩

end TypeDeclaration

/-! ## All types together -/

namespace Declarations

/-- Types have distinct names, and each of them is well formed among the others. -/
structure WellFormed (d : Declarations) : Prop where
  names : (d.types.map (·.name)).Nodup
  types : ∀ t ∈ d.types, t.WellFormed (d.types.map (·.name))

lemma repeatedName?_eq_none_iff {names known : List String} :
    repeatedName? names known = none ↔ names.Nodup ∧ ∀ name ∈ names, name ∉ known := by
  induction names generalizing known with
  | nil => simp [repeatedName?]
  | cons name rest ih =>
    rw [repeatedName?, List.nodup_cons, List.forall_mem_cons]
    by_cases hname : name ∈ known
    · simp [hname]
    · have hfree : ¬ known.contains name = true := by simpa using hname
      rw [if_neg hfree, ih]
      constructor
      · rintro ⟨hnodup, hrest⟩
        exact ⟨⟨fun hmem => hrest name hmem List.mem_cons_self, hnodup⟩, hname,
          fun other hother hmem => hrest other hother (List.mem_cons_of_mem _ hmem)⟩
      · rintro ⟨⟨hnew, hnodup⟩, -, hrest⟩
        refine ⟨hnodup, fun other hother hmem => ?_⟩
        rcases List.mem_cons.1 hmem with rfl | hmem
        · exact hnew hother
        · exact hrest other hother hmem

/-- Where no type is declared twice, every declaration is found under its name. -/
lemma declaration?_of_mem {r : Registry} (h : r.typeNames.Nodup) {t : TypeDeclaration}
    (ht : t ∈ r.types) : r.declaration? t.name = some t := by
  have hsome : (r.declaration? t.name).isSome = true :=
    List.find?_isSome.2 ⟨t, ht, beq_self_eq_true _⟩
  obtain ⟨found, hfound⟩ := Option.isSome_iff_exists.1 hsome
  have hname : found.name = t.name := by simpa using List.find?_some hfound
  rw [hfound, List.inj_on_of_nodup_map h (List.mem_of_find?_eq_some hfound) ht hname]

/-- Nothing is wrong with the types of a registry exactly when every one of them resolves. -/
theorem firstFault?_eq_none_iff {r : Registry} (h : r.typeNames.Nodup) :
    firstFault? r r.typeNames = none ↔
      ∀ t ∈ r.types, ∃ o, t.resolve r.isOutputType = .ok o := by
  rw [firstFault?, List.findSome?_eq_none_iff, Registry.typeNames, List.forall_mem_map]
  refine forall_congr' fun t => forall_congr' fun ht => ?_
  rw [Registry.describe, declaration?_of_mem h ht]
  cases hresolve : t.resolve r.isOutputType <;> simp [hresolve]

/-- Declarations that are accepted are kept as they are. -/
theorem build_eq_ok_iff {d : Declarations} {r : Registry} :
    d.build = .ok r ↔ d.WellFormed ∧ r = ⟨d.settings, d.types⟩ := by
  rw [build, buildLazy]
  cases hrepeated : repeatedName? (d.types.map (·.name)) [] with
  | some name =>
    refine ⟨fun h => (by cases h), fun ⟨hformed, _⟩ => ?_⟩
    have hnone := repeatedName?_eq_none_iff.2 ⟨hformed.names, fun _ _ => List.not_mem_nil⟩
    cases hrepeated.symm.trans hnone
  | none =>
    have hnames : (d.types.map (·.name)).Nodup := (repeatedName?_eq_none_iff.1 hrepeated).1
    -- Names are distinct here, so a type is found under its own name, and each is looked at once.
    have htypes : firstFault? ⟨d.settings, d.types⟩ (d.types.map (·.name)) = none ↔
        ∀ t ∈ d.types, t.WellFormed (d.types.map (·.name)) := by
      refine (firstFault?_eq_none_iff (r := ⟨d.settings, d.types⟩) hnames).trans ?_
      refine forall_congr' fun t => forall_congr' fun ht => ?_
      simp only [TypeDeclaration.resolve_eq_ok_iff
        fun name => Registry.isOutputType_eq_true_iff (r := ⟨d.settings, d.types⟩)]
      exact ⟨fun ⟨_, hformed, _⟩ => hformed,
        fun hformed => hformed.exists_means.imp fun _ hmeans => ⟨hformed, hmeans⟩⟩
    simp only [Registry.typeNames]
    cases hfault : firstFault? ⟨d.settings, d.types⟩ (d.types.map (·.name)) with
    | some e =>
      refine ⟨fun h => (by cases h), fun ⟨hformed, _⟩ => ?_⟩
      cases hfault.symm.trans (htypes.2 hformed.types)
    | none =>
      refine ⟨fun h => ?_, fun ⟨_, hr⟩ => congrArg Except.ok hr.symm⟩
      cases h
      exact ⟨⟨hnames, htypes.1 hfault⟩, rfl⟩

/-- Declarations of which it is known that they are accepted are kept as they are. -/
lemma build_of_isOk {d : Declarations} (h : d.build.isOk = true) :
    d.build = .ok ⟨d.settings, d.types⟩ := by
  cases hbuild : d.build with
  | error e =>
    rw [hbuild] at h
    cases h
  | ok r => exact congrArg Except.ok (build_eq_ok_iff.1 hbuild).2

/-- **Exactly the well-formed declarations are accepted**, and a registry that is built describes
every declared type by what was declared: under its name, with its table, and with its fields in the
order of declaration, each of the kind that its attributes select. -/
theorem build_iff_wellFormed (d : Declarations) :
    ((∃ r, d.build = .ok r) ↔ d.WellFormed) ∧
    ∀ r, d.build = .ok r →
      r.typeNames = d.types.map (·.name) ∧
      (∀ t ∈ d.types, ∃ o, r.describe t.name = .ok (some o) ∧ t.Means o) ∧
      ∀ name ∉ d.types.map (·.name), r.describe name = .ok none := by
  refine ⟨?_, fun r hr => ?_⟩
  · simp only [build_eq_ok_iff]
    exact ⟨fun ⟨_, hformed, _⟩ => hformed, fun hformed => ⟨_, hformed, rfl⟩⟩
  · obtain ⟨hformed, rfl⟩ := build_eq_ok_iff.1 hr
    refine ⟨rfl, fun t ht => ?_, fun name hname => ?_⟩
    · have hfound : Registry.declaration? ⟨d.settings, d.types⟩ t.name = some t :=
        declaration?_of_mem (r := ⟨d.settings, d.types⟩) hformed.names ht
      obtain ⟨o, ho⟩ := (hformed.types t ht).exists_means
      refine ⟨o, Registry.describe_eq_some_iff.2 ⟨t, hfound, ?_⟩, ho⟩
      exact (TypeDeclaration.resolve_eq_ok_iff
        fun name => Registry.isOutputType_eq_true_iff).2 ⟨hformed.types t ht, ho⟩
    · have hnone : Registry.declaration? ⟨d.settings, d.types⟩ name = none := by
        rw [← Option.not_isSome_iff_eq_none]
        exact fun hsome => hname (Registry.isRegistered_eq_true_iff.1 hsome)
      rw [Registry.describe, hnone]

/-- Books with a field of every kind, and their authors, who have their books in pages. -/
def catalog : Declarations where
  types := [
    { name := "Book"
      table := some "books"
      fields := [
        { name := "id", type := "ID!", always := true },
        { name := "title", type := "String!", column := some "headline" },
        { name := "onLoan", type := "Boolean!", selectable := false },
        { name := "pages", type := "Int", expression := some (.raw "sum(leaves) * 2"),
          outputAlias := some "page_count" },
        { name := "shelf", type := "String", expression := some (.raw "upper(room)") },
        { name := "author", type := "Author!"
          relation := some { localKey := some "author_id", foreignKey := some "id" } }] },
    { name := "Author"
      table := some "authors"
      fields := [
        { name := "name", type := "String!" },
        { name := "books", type := "BookSimplePagination!"
          relation := some { name := some "works", localKey := some "id",
                             foreignKey := some "author_id" } }] }]

/-- The catalog is well formed, and a book is described by its six fields. -/
theorem build_iff_wellFormed_catalog :
    catalog.WellFormed ∧ ∃ r, catalog.build = .ok r ∧ r.typeNames = ["Book", "Author"] ∧
      ∃ o, r.describe "Book" = .ok (some o) ∧
        o.fields.map (·.name) = ["id", "title", "onLoan", "pages", "shelf", "author"] ∧
        o.columnNames = ["id", "headline"] ∧ o.aliasNames = ["page_count", "shelf"] := by
  have hok : catalog.build.isOk = true := by decide +kernel
  obtain ⟨r, hr⟩ : ∃ r, catalog.build = .ok r := by
    cases hbuild : catalog.build with
    | error e =>
      rw [hbuild] at hok
      cases hok
    | ok r => exact ⟨r, rfl⟩
  obtain ⟨hiff, hdescribed⟩ := build_iff_wellFormed catalog
  obtain ⟨hnames, hmeans, -⟩ := hdescribed r hr
  obtain ⟨o, ho, hbook⟩ := hmeans _ List.mem_cons_self
  refine ⟨hiff.1 ⟨r, hr⟩, r, hr, hnames, o, ho, hbook.names_eq, ?_, ?_⟩
  · rw [hbook.columnNames_eq]
    rfl
  · rw [hbook.aliasNames_eq]
    rfl

end Declarations

end GraphProjection
