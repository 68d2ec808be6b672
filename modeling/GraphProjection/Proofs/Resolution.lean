import GraphProjection.Registry
import Mathlib.Data.List.Nodup

/-!
# Types that a registry describes

Resolving a declaration settles more than its errors say.  A described type has the name under
which it was found, its fields have distinct names, and its output aliases are distinct and none
of its columns, for aliases and columns are read from the same row.
-/

namespace GraphProjection

namespace FieldDeclaration

lemma ne_computed_of_relationKind {isOutputType : String → Bool} {d : FieldDeclaration}
    {type : TypeRef} {relation : RelationDeclaration} {outputAlias : String} {e : Expression} :
    d.relationKind isOutputType type relation ≠ .ok (.computed outputAlias e) := by
  intro h
  unfold relationKind at h
  split at h
  · cases h
  · split at h
    · cases h
    · split at h
      · cases h
      · split at h <;> cases h

lemma ne_computed_of_plainKind {d : FieldDeclaration} {outputAlias : String} {e : Expression} :
    d.plainKind ≠ .ok (.computed outputAlias e) := by
  intro h
  unfold plainKind at h
  split at h
  · cases h
  · split at h <;> cases h

lemma eq_of_computedKind {d : FieldDeclaration} {expression e : Expression}
    {outputAlias : String} (h : d.computedKind expression = .ok (.computed outputAlias e)) :
    expression = e := by
  unfold computedKind at h
  split at h
  · cases h
  · split at h
    · cases h
    · cases h
      rfl

/-- A computed field has the expression that it was declared with. -/
lemma expression_of_resolveKind {isOutputType : String → Bool} {d : FieldDeclaration}
    {type : TypeRef} {outputAlias : String} {e : Expression}
    (h : d.resolveKind isOutputType type = .ok (.computed outputAlias e)) :
    d.expression = some e := by
  rw [resolveKind] at h
  split at h
  · cases h
  · simp only at h
    split at h
    · cases h
    · cases h
    · next hkind =>
      split at h
      · cases h
      · cases h
        split at hkind
        · cases hkind
        · exact absurd hkind ne_computed_of_relationKind
        · next hexpression => exact hexpression.trans (congrArg some (eq_of_computedKind hkind))
        · exact absurd hkind ne_computed_of_plainKind

/-- A descriptor has the rule and the expression of its declaration. -/
lemma resolve_rules {isOutputType : String → Bool} {type : String} {d : FieldDeclaration}
    {f : FieldDescriptor} (h : d.resolve isOutputType type = .ok f) :
    f.privacy = d.privacy ∧
      ∀ outputAlias e, f.kind = .computed outputAlias e → d.expression = some e := by
  rw [resolve] at h
  split at h
  · cases h
  · split at h
    · cases h
    · next kind hkind =>
      cases h
      refine ⟨rfl, fun outputAlias e hcomputed => ?_⟩
      simp only at hcomputed
      rw [hcomputed] at hkind
      exact expression_of_resolveKind hkind

end FieldDeclaration

namespace TypeDeclaration

lemma nodup_names_of_resolveFields {isOutputType : String → Bool} {type : String}
    {ds : List FieldDeclaration} {known fields : List FieldDescriptor}
    (hknown : (known.map (·.name)).Nodup)
    (h : resolveFields isOutputType type ds known = .ok fields) :
    (fields.map (·.name)).Nodup := by
  induction ds generalizing known with
  | nil =>
    cases h
    exact hknown
  | cons d rest ih =>
    rw [resolveFields] at h
    split at h
    · cases h
    · next f _ =>
      split at h
      · cases h
      · next hfresh =>
        have hnew : f.name ∉ known.map (·.name) := by
          intro hmem
          obtain ⟨g, hg, hname⟩ := List.mem_map.1 hmem
          exact hfresh (List.any_eq_true.2 ⟨g, hg, by simp [hname]⟩)
        refine ih ?_ h
        rw [List.map_append]
        exact List.nodup_append_comm.1 (List.nodup_cons.2 ⟨hnew, hknown⟩)

/-- Every field comes from a declaration, those resolved before aside. -/
lemma exists_declaration_of_resolveFields {isOutputType : String → Bool} {type : String}
    {ds : List FieldDeclaration} {known fields : List FieldDescriptor}
    (h : resolveFields isOutputType type ds known = .ok fields) {f : FieldDescriptor}
    (hf : f ∈ fields) : f ∈ known ∨ ∃ d ∈ ds, d.resolve isOutputType type = .ok f := by
  induction ds generalizing known with
  | nil =>
    cases h
    exact .inl hf
  | cons d rest ih =>
    rw [resolveFields] at h
    split at h
    · cases h
    · next g hg =>
      split at h
      · cases h
      · rcases ih h with hknown | ⟨other, hother, hresolve⟩
        · rcases List.mem_append.1 hknown with hknown | hnew
          · exact .inl hknown
          · exact .inr ⟨d, List.mem_cons_self, List.mem_singleton.1 hnew ▸ hg⟩
        · exact .inr ⟨other, List.mem_cons_of_mem _ hother, hresolve⟩

/-- No alias is repeated exactly when the aliases are distinct and none of them is a column or
claimed already. -/
theorem repeatedAlias?_eq_none_iff {columns aliases claimed : List String} :
    repeatedAlias? columns aliases claimed = none ↔
      aliases.Nodup ∧ ∀ name ∈ aliases, name ∉ columns ∧ name ∉ claimed := by
  -- A name that has been passed is claimed for the names behind it.
  induction aliases generalizing claimed with
  | nil => simp [repeatedAlias?]
  | cons name rest ih =>
    rw [repeatedAlias?, List.nodup_cons, List.forall_mem_cons]
    by_cases hname : name ∈ columns ∨ name ∈ claimed
    · have htaken : (columns.contains name || claimed.contains name) = true := by
        simpa using hname
      rw [if_pos htaken]
      constructor
      · intro h
        cases h
      · rintro ⟨-, ⟨hcolumn, hclaimed⟩, -⟩
        exact (hname.elim hcolumn hclaimed).elim
    · rw [not_or] at hname
      have hfree : ¬ (columns.contains name || claimed.contains name) = true := by
        simpa using hname
      rw [if_neg hfree, ih]
      constructor
      · rintro ⟨hnodup, hrest⟩
        refine ⟨⟨fun hmem => (hrest name hmem).2 List.mem_cons_self, hnodup⟩, hname, ?_⟩
        exact fun other hother =>
          ⟨(hrest other hother).1, fun hc => (hrest other hother).2 (List.mem_cons_of_mem _ hc)⟩
      · rintro ⟨⟨hnew, hnodup⟩, -, hrest⟩
        refine ⟨hnodup, fun other hother => ⟨(hrest other hother).1, fun hc => ?_⟩⟩
        rcases List.mem_cons.1 hc with rfl | hc
        · exact hnew hother
        · exact (hrest other hother).2 hc

end TypeDeclaration

namespace OutputType

/-- The columns that a type's fields read. -/
def columnNames (t : OutputType) : List String := t.fields.filterMap (·.column?)

/-- The aliases of a type's expressions. -/
def aliasNames (t : OutputType) : List String := t.fields.filterMap (·.alias?)

lemma mem_columnNames {t : OutputType} {column : String} :
    column ∈ t.columnNames ↔ ∃ f ∈ t.fields, f.kind = .column column := by
  rw [columnNames, List.mem_filterMap]
  refine exists_congr fun f => and_congr_right fun _ => ?_
  rw [FieldDescriptor.column?]
  cases f.kind <;> simp

lemma mem_aliasNames {t : OutputType} {name : String} :
    name ∈ t.aliasNames ↔ ∃ f ∈ t.fields, ∃ e, f.kind = .computed name e := by
  rw [aliasNames, List.mem_filterMap]
  refine exists_congr fun f => and_congr_right fun _ => ?_
  rw [FieldDescriptor.alias?]
  cases f.kind <;> simp

lemma mem_of_field? {t : OutputType} {name : String} {f : FieldDescriptor}
    (h : t.field? name = some f) : f ∈ t.fields ∧ f.name = name :=
  ⟨List.mem_of_find?_eq_some h, by simpa using List.find?_some h⟩

end OutputType

namespace Registry

/-- What describing a type comes down to. -/
theorem describe_eq_some_iff {r : Registry} {name : String} {t : OutputType} :
    r.describe name = .ok (some t) ↔
      ∃ d, r.declaration? name = some d ∧ d.resolve r.isOutputType = .ok t := by
  unfold describe
  cases r.declaration? name with
  | none => simp
  | some d =>
    simp only [Option.some.injEq, exists_eq_left']
    cases TypeDeclaration.resolve r.isOutputType d with
    | error e => simp
    | ok found => simp

lemma expect_eq_ok_iff {r : Registry} {name : String} {t : OutputType} :
    r.expect name = .ok t ↔ r.describe name = .ok (some t) := by
  unfold expect
  cases r.describe name with
  | error e => simp
  | ok found => cases found <;> simp

lemma isRegistered_of_describe {r : Registry} {name : String} {t : OutputType}
    (h : r.describe name = .ok (some t)) : r.isRegistered name = true := by
  obtain ⟨d, hd, -⟩ := describe_eq_some_iff.1 h
  rw [isRegistered, hd]
  rfl

/-- What a resolved declaration guarantees of its type. -/
lemma resolve_spec {d : TypeDeclaration} {isOutputType : String → Bool} {t : OutputType}
    (h : d.resolve isOutputType = .ok t) :
    t.name = d.name ∧ t.table = d.table ∧ (t.fields.map (·.name)).Nodup ∧
      t.aliasNames.Nodup ∧ ∀ name ∈ t.aliasNames, name ∉ t.columnNames := by
  rw [TypeDeclaration.resolve] at h
  split at h
  · cases h
  · next fields hfields =>
    split at h
    · cases h
    · next hnone =>
      cases h
      obtain ⟨hnodup, hfree⟩ := TypeDeclaration.repeatedAlias?_eq_none_iff.1 hnone
      have hnames : (fields.map (·.name)).Nodup :=
        TypeDeclaration.nodup_names_of_resolveFields (by simp) hfields
      exact ⟨rfl, rfl, hnames, hnodup, fun name hname => (hfree name hname).1⟩

/-- A type is described under its own name. -/
lemma name_of_describe {r : Registry} {name : String} {t : OutputType}
    (h : r.describe name = .ok (some t)) : t.name = name := by
  obtain ⟨d, hd, ht⟩ := describe_eq_some_iff.1 h
  rw [(resolve_spec ht).1]
  simpa using List.find?_some hd

lemma nodup_names_of_describe {r : Registry} {name : String} {t : OutputType}
    (h : r.describe name = .ok (some t)) : (t.fields.map (·.name)).Nodup := by
  obtain ⟨d, -, ht⟩ := describe_eq_some_iff.1 h
  exact (resolve_spec ht).2.2.1

/-- Fields of a described type that have one name are one field. -/
lemma eq_of_name_eq {r : Registry} {name : String} {t : OutputType}
    (h : r.describe name = .ok (some t)) {f g : FieldDescriptor} (hf : f ∈ t.fields)
    (hg : g ∈ t.fields) (hname : f.name = g.name) : f = g :=
  List.inj_on_of_nodup_map (nodup_names_of_describe h) hf hg hname

/-- Every field of a described type comes from a declaration. -/
lemma exists_declaration_of_describe {r : Registry} {name : String} {t : OutputType}
    (h : r.describe name = .ok (some t)) {f : FieldDescriptor} (hf : f ∈ t.fields) :
    ∃ type ∈ r.types, ∃ d ∈ type.fields, d.resolve r.isOutputType type.name = .ok f := by
  obtain ⟨type, htype, ht⟩ := describe_eq_some_iff.1 h
  refine ⟨type, List.mem_of_find?_eq_some htype, ?_⟩
  rw [TypeDeclaration.resolve] at ht
  split at ht
  · cases ht
  · next fields hfields =>
    split at ht
    · cases ht
    · cases ht
      exact (TypeDeclaration.exists_declaration_of_resolveFields hfields hf).resolve_left
        List.not_mem_nil

/-! ## All types at once -/

/-- Whether every type that a registry describes passes a check. -/
def allDescribed (r : Registry) (check : OutputType → Bool) : Bool :=
  r.typeNames.all fun name =>
    match r.describe name with
    | .ok (some t) => check t
    | _ => true

lemma mem_typeNames_of_isRegistered {r : Registry} {name : String}
    (h : r.isRegistered name = true) : name ∈ r.typeNames := by
  obtain ⟨d, hd⟩ := Option.isSome_iff_exists.1 h
  have hname : d.name = name := by simpa using List.find?_some hd
  exact List.mem_map.2 ⟨d, List.mem_of_find?_eq_some hd, hname⟩

/-- Looking at the declared names is looking at every name. -/
theorem allDescribed_eq_true_iff {r : Registry} {check : OutputType → Bool} :
    r.allDescribed check = true ↔
      ∀ name t, r.describe name = .ok (some t) → check t = true := by
  rw [allDescribed, List.all_eq_true]
  constructor
  · intro h name t ht
    have hname := h name (mem_typeNames_of_isRegistered (isRegistered_of_describe ht))
    rwa [ht] at hname
  · intro h name _
    split
    · next t ht => exact h name t ht
    · rfl

end Registry

end GraphProjection
