import GraphProjection.Proofs.Binding
import GraphProjection.Proofs.Projection.Agreement
import GraphProjection.Proofs.Projection.Contributions
import GraphProjection.Proofs.Resolution
import GraphProjection.Proofs.Selection

/-!
# Projections that serve a selection

A projection serves a selection on a type when whatever the selection can see of a row is there:
the columns and the bound expressions of its fields, and for every relation a slot whose own
projection serves what is selected below.  `Projector.Serves` is that condition, and
`serves_of_projectType` that the projection of a selection meets it.

The projection looks at the first field of a name and at the children of all fields of that name;
whoever shapes a row looks at any of them.  The two meet in `exists_requested_of_checkFields`: the
fields of one name have the same arguments, so they are seen, and their parameters bound, together
or not at all.
-/

namespace GraphProjection

/-! ## What is assumed of a registry -/

namespace Registry

/-- No registered type has the name of another one's envelope. -/
def EnvelopesApart (r : Registry) : Prop :=
  ∀ name, r.isRegistered name = true → r.envelope? name = none

/-- The items of an envelope are of a registered type, which has not the name of an envelope. -/
lemma EnvelopesApart.item {r : Registry} (h : r.EnvelopesApart) {type item : String}
    {kind : PageKind} (henvelope : r.envelope? type = some (kind, item)) :
    r.envelope? item = none := by
  obtain ⟨other, -, hother⟩ := List.exists_of_findSome?_eq_some henvelope
  obtain ⟨name, hname, heq⟩ := Option.map_eq_some_iff.1 hother
  cases heq
  exact h item (Option.filter_eq_some_iff.1 hname).2

/-- It is enough to look at the declared names. -/
lemma envelopesApart_of_typeNames {r : Registry}
    (h : ∀ name ∈ r.typeNames, (r.envelope? name).isNone = true) : r.EnvelopesApart :=
  fun name hname => Option.isNone_iff_eq_none.1 (h name (mem_typeNames_of_isRegistered hname))

/-- No relation field has the name of a column or of an alias of its type. -/
def RelationsApart (r : Registry) : Prop :=
  ∀ name t, r.describe name = .ok (some t) → ∀ f ∈ t.fields, f.relation?.isSome = true →
    f.name ∉ t.columnNames ∧ f.name ∉ t.aliasNames

/-- Privacy rules do not tell arguments apart that are the same. -/
def PrivacyRespectsSame (r : Registry) : Prop :=
  ∀ name t, r.describe name = .ok (some t) → ∀ f ∈ t.fields, ∀ (a b : Arguments) services,
    (Entries.names a).Nodup → (Entries.names b).Nodup → Value.sameArguments a b = true →
    f.allows a services = f.allows b services

/-- Where no field has a privacy rule, none tells arguments apart. -/
lemma privacyRespectsSame_of_isNone {r : Registry}
    (h : r.allDescribed (fun t => t.fields.all (·.privacy.isNone)) = true) :
    r.PrivacyRespectsSame := by
  intro name t ht f hf a b services _ _ _
  have hnone := List.all_eq_true.1 (allDescribed_eq_true_iff.1 h name t ht) f hf
  rw [FieldDescriptor.allows, FieldDescriptor.allows, Option.isNone_iff_eq_none.1 hnone]

/-- Where all fields of all types have their values from the storage, so do those that are
requested. -/
lemma FromStorage.of_isStored {r : Registry}
    (h : r.allDescribed (fun t => t.fields.all (·.isStored)) = true) (type : String)
    (nodes : List FieldNode) : r.FromStorage type nodes := by
  intro t node f hrequests _ hf
  obtain ⟨name, ht⟩ := hrequests.described
  have hall := List.all_eq_true.1 (allDescribed_eq_true_iff.1 h name t ht)
  exact FieldDescriptor.isStored_iff.1 (hall f (List.mem_of_find?_eq_some hf))

end Registry

/-! ## The first field of a name -/

namespace FieldNode

lemma requested_cons_of_pos {next : FieldNode} {rest : List FieldNode} {name : String}
    (hname : next.name = name) (htypename : next.name ≠ typename) :
    requested (next :: rest) name = next :: requested rest name :=
  List.filter_cons_of_pos (by simpa using ⟨hname, htypename⟩)

lemma requested_cons_of_neg {next : FieldNode} {rest : List FieldNode} {name : String}
    (h : next.name = name → next.name = typename) :
    requested (next :: rest) name = requested rest name :=
  List.filter_cons_of_neg (by simpa using h)

/-- The first field of a name among those checked before and those yet to be checked. -/
def firstOf? (earlier nodes : List FieldNode) (name : String) : Option FieldNode :=
  (earlier.find? (·.name == name)).or (requested nodes name).head?

end FieldNode

namespace OutputType

open FieldNode

/-- Checking one field leaves the first field of every name what it was, and the field has the
arguments of the first field of its name. -/
theorem checkFields_cons {t : OutputType} {next : FieldNode} {rest earlier : List FieldNode}
    (h : t.checkFields (next :: rest) earlier = .ok ()) :
    ∃ seen, t.checkFields rest seen = .ok () ∧
      (∀ name, firstOf? earlier (next :: rest) name = firstOf? seen rest name) ∧
      (next.name ≠ typename → ∃ first, firstOf? earlier (next :: rest) next.name = some first ∧
        (first = next ∨ Value.sameArguments first.arguments next.arguments = true)) := by
  rw [checkFields] at h
  split at h
  · next htypename =>
    refine ⟨earlier, h, fun name => ?_, fun hne => absurd htypename hne⟩
    rw [firstOf?, firstOf?, requested_cons_of_neg fun _ => htypename]
  · next htypename =>
    split at h
    · cases h
    · split at h
      · next first hfirst =>
        split at h
        · next hsame =>
          refine ⟨earlier, h, fun name => ?_, fun _ => ⟨first, ?_, .inr hsame⟩⟩
          · by_cases hname : next.name = name
            · rw [firstOf?, firstOf?, ← hname, hfirst]
              rfl
            · rw [firstOf?, firstOf?, requested_cons_of_neg fun heq => absurd heq hname]
          · rw [firstOf?, hfirst]
            rfl
        · cases h
      · next hnone =>
        -- The field is the first of its name, and is from now on known as that.
        refine ⟨earlier ++ [next], h, fun name => ?_, fun _ => ⟨next, ?_, .inl rfl⟩⟩
        · by_cases hname : next.name = name
          · rw [firstOf?, firstOf?, requested_cons_of_pos hname htypename, List.find?_append,
              ← hname, hnone]
            simp
          · rw [firstOf?, firstOf?, requested_cons_of_neg fun heq => absurd heq hname,
              List.find?_append]
            simp [hname]
        · rw [firstOf?, hnone, requested_cons_of_pos rfl htypename]
          rfl

/-- In a selection that is in order, the first field of a name has the arguments of all of
them. -/
theorem exists_first_of_checkFields {t : OutputType} {nodes earlier : List FieldNode}
    (h : t.checkFields nodes earlier = .ok ()) {node : FieldNode} (hnode : node ∈ nodes)
    (htypename : node.name ≠ typename) :
    ∃ first, firstOf? earlier nodes node.name = some first ∧
      (first = node ∨ Value.sameArguments first.arguments node.arguments = true) := by
  induction nodes generalizing earlier with
  | nil => cases hnode
  | cons next rest ih =>
    obtain ⟨seen, hrest, hfirst, hnext⟩ := checkFields_cons h
    rcases List.mem_cons.1 hnode with rfl | hmem
    · exact hnext htypename
    · rw [hfirst]
      exact ih hrest hmem

/-- What is requested of a field has its first field at the head, with the arguments of all. -/
theorem exists_requested_of_checkFields {t : OutputType} {nodes : List FieldNode}
    (h : t.checkFields nodes [] = .ok ()) {node : FieldNode} (hnode : node ∈ nodes)
    (htypename : node.name ≠ typename) :
    ∃ first rest, requested nodes node.name = first :: rest ∧
      (first = node ∨ Value.sameArguments first.arguments node.arguments = true) := by
  obtain ⟨first, hfirst, hsame⟩ := exists_first_of_checkFields h hnode htypename
  rw [firstOf?, List.find?_nil, Option.none_or] at hfirst
  obtain ⟨rest, hrest⟩ := List.head?_eq_some_iff.1 hfirst
  exact ⟨first, rest, hrest, hsame⟩

end OutputType

/-! ## What a projection holds of its parts -/

namespace Projection

lemma qualify_eq {p : Projection} {t : OutputType} (h : p.table = t.table) (column : String) :
    p.qualify column = t.qualify column := by
  cases htable : t.table with
  | none => simp only [qualify, OutputType.qualify, h, htable]
  | some table => simp only [qualify, OutputType.qualify, h, htable]

lemma relation?_addColumn (p : Projection) (column name : String) :
    (p.addColumn column).relation? name = p.relation? name := by
  rw [relation?, relations_addColumn, ← relation?]

lemma Holds.addColumn {p : Projection} {name : String} (h : p.Holds name) (column : String) :
    (p.addColumn column).Holds name := by
  rcases h with hcolumn | halias
  · refine .inl ((mem_columns_addColumn p column _).2 (.inl ?_))
    rwa [qualify, table_addColumn, ← qualify]
  · refine .inr ?_
    rwa [expressions_addColumn]

end Projection

/-- Everything of a contribution is in a projection. -/
structure Contribution.Within (c : Contribution) (p : Projection) : Prop where
  columns : ∀ column ∈ c.columns, column ∈ p.columns
  aliases : ∀ name ∈ c.expressions.map (·.2), name ∈ p.expressions.map (·.2)
  relations : ∀ relation ∈ c.relations, relation ∈ p.relations

lemma Projection.within_assemble {table : Option String} {parts : List Contribution}
    {c : Contribution} (h : c ∈ parts) : c.Within (assemble table parts) where
  columns _ hcolumn := mem_columns_assemble.2 ⟨c, h, hcolumn⟩
  aliases _ hname := mem_aliases_assemble.2 ⟨c, h, hname⟩
  relations relation hrelation := by
    rw [relations_assemble]
    exact List.mem_flatMap.2 ⟨c, h, hrelation⟩

/-! ## Where the relations of a projection come from -/

namespace Projector

open FieldNode

/-- A relation of a projection comes from a field of the type: its rows are of the type that the
field leads to, and its projection is that of the fields requested below, with the column that
matches the parent, unless the relation is forced. -/
structure Origin (x : Projector) (nodes : List FieldNode) (f : FieldDescriptor)
    (r : RelationDescriptor) (target : OutputType) (relation : RelationEntry × Projection) :
    Prop where
  kind : f.kind = .relation r
  described : x.registry.describe
    (itemType (x.registry.envelope? f.type.namedType) f.type.namedType) = .ok (some target)
  entry : ∃ arguments, relation.1 =
    relationEntry f r target (x.registry.envelope? f.type.namedType) arguments
  below : (requested nodes f.name = [] ∧ relation.2 = forcedProjection target r) ∨
    ∃ first rest child, requested nodes f.name = first :: rest ∧
      x.projectType target (itemNodes (x.registry.envelope? f.type.namedType)
        (childrenOf (first :: rest))) = .ok child ∧
      relation.2 = child.addColumn (target.qualify r.foreignKey)

lemma Origin.field {x : Projector} {nodes : List FieldNode} {f : FieldDescriptor}
    {r : RelationDescriptor} {target : OutputType} {relation : RelationEntry × Projection}
    (h : Origin x nodes f r target relation) : relation.1.target.field = f.name := by
  obtain ⟨arguments, hentry⟩ := h.entry
  rw [hentry]
  rfl

lemma Origin.page {x : Projector} {nodes : List FieldNode} {f : FieldDescriptor}
    {r : RelationDescriptor} {target : OutputType} {relation : RelationEntry × Projection}
    (h : Origin x nodes f r target relation) :
    relation.1.page.isSome = (x.registry.envelope? f.type.namedType).isSome := by
  obtain ⟨arguments, hentry⟩ := h.entry
  rw [hentry]
  exact Option.isSome_map

lemma forcedContribution_spec {x : Projector} {t : OutputType} {f : FieldDescriptor}
    {c : Contribution} (h : x.forcedContribution t f = .ok c) :
    c = .none ∨ ∃ r target, f.kind = .relation r ∧
      x.registry.describe (itemType (x.registry.envelope? f.type.namedType) f.type.namedType) =
        .ok (some target) ∧
      c = ⟨[t.qualify r.localKey], [],
        [(relationEntry f r target (x.registry.envelope? f.type.namedType) [],
          forcedProjection target r)]⟩ := by
  unfold forcedContribution at h
  split at h
  · next r hkind =>
    split at h
    · simp only at h
      split at h
      · cases h
      · next target htarget =>
        split at h
        · cases h
          exact .inr ⟨r, target, hkind, Registry.expect_eq_ok_iff.1 htarget, rfl⟩
        · cases h
          exact .inl rfl
    · cases h
      exact .inl rfl
  · cases h
    exact .inl rfl

lemma relationContribution_eq_ok_iff {x : Projector} {t : OutputType} {f : FieldDescriptor}
    {r : RelationDescriptor} {arguments : Arguments} {inner : List FieldNode}
    {c : Contribution} :
    x.relationContribution t f r arguments inner = .ok c ↔
      checkEnvelope (x.registry.envelope? f.type.namedType) f.type.namedType inner = .ok () ∧
      ∃ target child,
        x.registry.describe (itemType (x.registry.envelope? f.type.namedType) f.type.namedType) =
          .ok (some target) ∧
        x.projectType target (itemNodes (x.registry.envelope? f.type.namedType) inner) =
          .ok child ∧
        c = ⟨[t.qualify r.localKey], [],
          [(relationEntry f r target (x.registry.envelope? f.type.namedType) arguments,
            child.addColumn (target.qualify r.foreignKey))]⟩ := by
  unfold relationContribution
  simp only
  constructor
  · intro h
    split at h
    · cases h
    · next hcheck =>
      split at h
      · cases h
      · next target htarget =>
        split at h
        · cases h
        · next child hchild =>
          cases h
          exact ⟨hcheck, target, child, Registry.expect_eq_ok_iff.1 htarget, hchild, rfl⟩
  · rintro ⟨hcheck, target, child, htarget, hchild, rfl⟩
    rw [hcheck, Registry.expect_eq_ok_iff.2 htarget]
    simp only [hchild]

lemma relationContribution_spec {x : Projector} {t : OutputType} {f : FieldDescriptor}
    {r : RelationDescriptor} {arguments : Arguments} {inner : List FieldNode} {c : Contribution}
    (h : x.relationContribution t f r arguments inner = .ok c) :
    ∃ target child,
      x.registry.describe (itemType (x.registry.envelope? f.type.namedType) f.type.namedType) =
        .ok (some target) ∧
      x.projectType target (itemNodes (x.registry.envelope? f.type.namedType) inner) =
        .ok child ∧
      c = ⟨[t.qualify r.localKey], [],
        [(relationEntry f r target (x.registry.envelope? f.type.namedType) arguments,
          child.addColumn (target.qualify r.foreignKey))]⟩ :=
  (relationContribution_eq_ok_iff.1 h).2

lemma contribution_eq_ok_iff {x : Projector} {t : OutputType} {nodes : List FieldNode}
    {f : FieldDescriptor} {c : Contribution} :
    x.contribution t nodes f = .ok c ↔
      ∃ own, x.ownContribution t nodes f = .ok own ∧ c = own.behind (alwaysColumns t f) := by
  unfold contribution
  cases x.ownContribution t nodes f with
  | error e =>
    constructor
    · intro h
      cases h
    · rintro ⟨own, hown, -⟩
      cases hown
  | ok own =>
    constructor
    · intro h
      cases h
      exact ⟨own, rfl, rfl⟩
    · rintro ⟨other, hother, rfl⟩
      cases hother
      rfl

/-- A field contributes one relation at most, with the column of its local key. -/
lemma exists_origin_of_contribution {x : Projector} {t : OutputType} {nodes : List FieldNode}
    {f : FieldDescriptor} {c : Contribution} (h : x.contribution t nodes f = .ok c)
    {relation : RelationEntry × Projection} (hrelation : relation ∈ c.relations) :
    c.relations = [relation] ∧
      ∃ r target, Origin x nodes f r target relation ∧ t.qualify r.localKey ∈ c.columns := by
  obtain ⟨own, hown, rfl⟩ := contribution_eq_ok_iff.1 h
  rw [ownContribution] at hown
  -- A relation is contributed for a field that is not requested if it is forced, and for a
  -- requested one if it is allowed.
  split at hown
  · next hrequested =>
    obtain rfl | ⟨r, target, hkind, htarget, rfl⟩ := forcedContribution_spec hown
    · cases hrelation
    · cases List.mem_singleton.1 hrelation
      refine ⟨rfl, r, target, ⟨hkind, htarget, ⟨[], rfl⟩, .inl ⟨hrequested, rfl⟩⟩, ?_⟩
      exact List.mem_append_right _ (List.mem_singleton_self _)
  · next first rest hrequested =>
    unfold requestedContribution at hown
    split at hown
    · split at hown
      · cases hown
        cases hrelation
      · cases hown
        cases hrelation
      · next r hkind =>
        obtain ⟨target, child, htarget, hchild, rfl⟩ := relationContribution_spec hown
        cases List.mem_singleton.1 hrelation
        refine ⟨rfl, r, target, ⟨hkind, htarget, ⟨first.arguments, rfl⟩,
          .inr ⟨first, rest, child, hrequested, hchild, rfl⟩⟩, ?_⟩
        exact List.mem_append_right _ (List.mem_singleton_self _)
      · cases hown
        cases hrelation
    · cases hown
      cases hrelation

/-- Every relation of a projection comes from a field of the type. -/
lemma exists_origin_of_mem {x : Projector} {t : OutputType} {nodes : List FieldNode}
    {p : Projection} (h : x.projectType t nodes = .ok p)
    {relation : RelationEntry × Projection} (hrelation : relation ∈ p.relations) :
    ∃ f ∈ t.fields, ∃ r target, Origin x nodes f r target relation ∧
      t.qualify r.localKey ∈ p.columns := by
  obtain ⟨-, parts, hparts, rfl⟩ := projectType_eq_ok_iff.1 h
  rw [Projection.relations_assemble] at hrelation
  obtain ⟨c, hc, hrelation⟩ := List.mem_flatMap.1 hrelation
  obtain ⟨f, hf, hcontribution⟩ := exists_left_of_mem hparts hc
  obtain ⟨-, r, target, horigin, hkey⟩ := exists_origin_of_contribution hcontribution hrelation
  exact ⟨f, hf, r, target, horigin, Projection.mem_columns_assemble.2 ⟨c, hc, hkey⟩⟩

/-- The relations of the parts of a projection have names of fields, in the order of the fields. -/
lemma slots_sublist_names {x : Projector} {t : OutputType} {nodes : List FieldNode}
    {fields : List FieldDescriptor} {parts : List Contribution}
    (h : List.Forall₂ (fun f c => x.contribution t nodes f = .ok c) fields parts) :
    ((parts.flatMap (·.relations)).map (·.1.target.field)).Sublist (fields.map (·.name)) := by
  induction h with
  | nil => exact List.Sublist.refl _
  | @cons f c fields parts hcontribution _ ih =>
    rw [List.flatMap_cons, List.map_append, List.map_cons]
    cases hrelations : c.relations with
    | nil => exact ih.cons f.name
    | cons relation others =>
      have hmem : relation ∈ c.relations := hrelations ▸ List.mem_cons_self
      obtain ⟨hsingle, r, target, horigin, -⟩ := exists_origin_of_contribution hcontribution hmem
      have hothers : others = [] := by
        rw [hsingle] at hrelations
        exact (List.cons.inj hrelations).2.symm
      rw [hothers, List.map_singleton, horigin.field]
      exact ih.cons_cons f.name

lemma slots_sublist_of_projectType {x : Projector} {t : OutputType} {nodes : List FieldNode}
    {p : Projection} (h : x.projectType t nodes = .ok p) :
    (p.relations.map (·.1.target.field)).Sublist (t.fields.map (·.name)) := by
  obtain ⟨-, parts, hparts, rfl⟩ := projectType_eq_ok_iff.1 h
  rw [Projection.relations_assemble]
  exact slots_sublist_names hparts

/-- The relations of a projection have slots of their own. -/
lemma nodup_slots_of_projectType {x : Projector} {name : String} {t : OutputType}
    {nodes : List FieldNode} {p : Projection} (ht : x.registry.describe name = .ok (some t))
    (h : x.projectType t nodes = .ok p) : (p.relations.map (·.1.target.field)).Nodup :=
  (Registry.nodup_names_of_describe ht).sublist (slots_sublist_of_projectType h)

/-! ## Serving a selection -/

/-- A requested field is seen: it is a field of the type, and its privacy rule lets it. -/
def Sees (x : Projector) (t : OutputType) (node : FieldNode) (f : FieldDescriptor) : Prop :=
  node.name ≠ typename ∧ t.field? node.name = some f ∧
    f.allows node.arguments x.services = true

/-- What a selection sees of a row is fetched: columns and bound expressions are held as entries
of the row, and relations have a slot with a page where their type is an envelope. -/
structure Fetches (x : Projector) (t : OutputType) (nodes : List FieldNode) (p : Projection) :
    Prop where
  stored : ∀ node ∈ nodes, ∀ f, Sees x t node f → f.resolver = none ∧ f.kind ≠ .notSelectable
  column : ∀ node ∈ nodes, ∀ f column, Sees x t node f → f.kind = .column column →
    p.Holds column ∧ p.relation? column = none
  computed : ∀ node ∈ nodes, ∀ f outputAlias e, Sees x t node f →
    f.kind = .computed outputAlias e → (x.expressionText? e node.arguments).isSome = true →
    p.Holds outputAlias ∧ p.relation? outputAlias = none
  slot : ∀ node ∈ nodes, ∀ f r, Sees x t node f → f.kind = .relation r →
    ∃ entry child target, p.relation? f.name = some (entry, child) ∧
      entry.page.isSome = (x.registry.envelope? f.type.namedType).isSome ∧
      x.registry.describe (itemType (x.registry.envelope? f.type.namedType) f.type.namedType) =
        .ok (some target)

/-- A projection serves a selection on a type: it fetches what is seen of a row, and its relations
serve what is selected below them. -/
inductive Serves (x : Projector) : OutputType → List FieldNode → Projection → Prop
  | intro {t : OutputType} {nodes : List FieldNode} {p : Projection}
      (here : Fetches x t nodes p)
      (under : ∀ node ∈ nodes, ∀ f r entry child target, Sees x t node f →
        f.kind = .relation r → p.relation? f.name = some (entry, child) →
        x.registry.describe (itemType (x.registry.envelope? f.type.namedType)
          f.type.namedType) = .ok (some target) →
        Serves x target (itemNodes (x.registry.envelope? f.type.namedType)
          (childrenOf (requested nodes node.name))) child) :
      Serves x t nodes p

lemma Fetches.addColumn {x : Projector} {t : OutputType} {nodes : List FieldNode}
    {p : Projection} (h : Fetches x t nodes p) (column : String) :
    Fetches x t nodes (p.addColumn column) := by
  have hslot := p.relation?_addColumn column
  refine ⟨h.stored, ?_, ?_, ?_⟩
  · intro node hnode f c hsees hkind
    obtain ⟨hc, hnone⟩ := h.column node hnode f c hsees hkind
    exact ⟨hc.addColumn column, (hslot c).trans hnone⟩
  · intro node hnode f a e hsees hkind hbound
    obtain ⟨ha, hnone⟩ := h.computed node hnode f a e hsees hkind hbound
    exact ⟨ha.addColumn column, (hslot a).trans hnone⟩
  · intro node hnode f r hsees hkind
    obtain ⟨entry, child, target, hfound, hpage, htarget⟩ := h.slot node hnode f r hsees hkind
    exact ⟨entry, child, target, (hslot _).trans hfound, hpage, htarget⟩

lemma Serves.addColumn {x : Projector} {t : OutputType} {nodes : List FieldNode}
    {p : Projection} (h : Serves x t nodes p) (column : String) :
    Serves x t nodes (p.addColumn column) := by
  cases h with
  | intro here under =>
    refine .intro (here.addColumn column) ?_
    intro node hnode f r entry child target hsees hkind hfound htarget
    rw [Projection.relation?_addColumn] at hfound
    exact under node hnode f r entry child target hsees hkind hfound htarget

/-! ## The projection of a selection serves it -/

/-- What a field contributes besides its column that is always selected is in the projection. -/
lemma exists_ownContribution_within {x : Projector} {t : OutputType} {nodes : List FieldNode}
    {p : Projection} (h : x.projectType t nodes = .ok p) {f : FieldDescriptor}
    (hf : f ∈ t.fields) :
    ∃ own, x.ownContribution t nodes f = .ok own ∧ own.Within p := by
  obtain ⟨-, parts, hparts, rfl⟩ := projectType_eq_ok_iff.1 h
  obtain ⟨c, hc, hcontribution⟩ := exists_right_of_mem hparts hf
  obtain ⟨own, hown, rfl⟩ := contribution_eq_ok_iff.1 hcontribution
  have hwithin : (own.behind (alwaysColumns t f)).Within (.assemble t.table parts) :=
    Projection.within_assemble hc
  refine ⟨own, hown, fun column hcolumn => ?_, hwithin.aliases, hwithin.relations⟩
  exact hwithin.columns column (List.mem_append_right _ hcolumn)

/-- A field that is seen contributes what it contributes for the first field of its name, whose
arguments are the same. -/
theorem exists_requestedContribution_within {x : Projector} {name : String} {t : OutputType}
    {nodes : List FieldNode} {p : Projection} (hprivacy : x.registry.PrivacyRespectsSame)
    (ht : x.registry.describe name = .ok (some t))
    (hargs : ∀ node ∈ nodes, (Entries.names node.arguments).Nodup)
    (h : x.projectType t nodes = .ok p) {node : FieldNode} (hnode : node ∈ nodes)
    {f : FieldDescriptor} (hsees : Sees x t node f) :
    ∃ first rest own, requested nodes f.name = first :: rest ∧
      (first = node ∨ Value.sameArguments first.arguments node.arguments = true) ∧
      f.allows first.arguments x.services = true ∧
      x.requestedContribution t f first rest = .ok own ∧ own.Within p := by
  obtain ⟨htypename, hf, hallows⟩ := hsees
  obtain ⟨hmem, hname⟩ := OutputType.mem_of_field? hf
  obtain ⟨hcheck, -⟩ := projectType_eq_ok_iff.1 h
  obtain ⟨first, rest, hrequested, hsame⟩ :=
    OutputType.exists_requested_of_checkFields hcheck hnode htypename
  rw [← hname] at hrequested
  obtain ⟨own, hown, hwithin⟩ := exists_ownContribution_within h hmem
  rw [ownContribution, hrequested] at hown
  refine ⟨first, rest, own, hrequested, hsame, ?_, hown, hwithin⟩
  rcases hsame with rfl | hsame
  · exact hallows
  · have hfirst : first ∈ nodes :=
      requested_subset nodes f.name (hrequested ▸ List.mem_cons_self)
    rw [hprivacy name t ht f hmem _ _ _ (hargs first hfirst) (hargs node hnode) hsame]
    exact hallows

/-- A relation that is seen has a slot: the fields below all fields of its name are in order, and
what the slot holds is their projection, with the column that matches the parent. -/
theorem exists_relation_of_sees {x : Projector} {name : String} {t : OutputType}
    {nodes : List FieldNode} {p : Projection} (hprivacy : x.registry.PrivacyRespectsSame)
    (ht : x.registry.describe name = .ok (some t))
    (hargs : ∀ node ∈ nodes, (Entries.names node.arguments).Nodup)
    (h : x.projectType t nodes = .ok p) {node : FieldNode} (hnode : node ∈ nodes)
    {f : FieldDescriptor} (hsees : Sees x t node f) {r : RelationDescriptor}
    (hkind : f.kind = .relation r) :
    ∃ entry target inner,
      p.relation? f.name = some (entry, inner.addColumn (target.qualify r.foreignKey)) ∧
      entry.page.isSome = (x.registry.envelope? f.type.namedType).isSome ∧
      checkEnvelope (x.registry.envelope? f.type.namedType) f.type.namedType
        (childrenOf (requested nodes f.name)) = .ok () ∧
      x.registry.describe (itemType (x.registry.envelope? f.type.namedType) f.type.namedType) =
        .ok (some target) ∧
      x.projectType target (itemNodes (x.registry.envelope? f.type.namedType)
        (childrenOf (requested nodes f.name))) = .ok inner := by
  obtain ⟨first, rest, own, hrequested, -, hallows, hown, hwithin⟩ :=
    exists_requestedContribution_within hprivacy ht hargs h hnode hsees
  rw [requestedContribution, if_pos hallows, hkind] at hown
  obtain ⟨hcheck, target, inner, htarget, hinner, rfl⟩ := relationContribution_eq_ok_iff.1 hown
  rw [← hrequested] at hcheck hinner
  have hmem := hwithin.relations _ (List.mem_singleton_self _)
  exact ⟨_, target, inner, Projection.relation?_of_mem (nodup_slots_of_projectType ht h) hmem,
    Option.isSome_map, hcheck, htarget, hinner⟩

lemma isSome_expressionText?_of_same (x : Projector) (e : Expression) {a b : Arguments}
    (ha : (Entries.names a).Nodup) (h : Value.sameArguments a b = true)
    (hb : (x.expressionText? e b).isSome = true) : (x.expressionText? e a).isSome = true := by
  cases e with
  | raw sql => rfl
  | callback parameters build =>
    have hbound : ∃ bound, bind parameters b x.services = .ok bound := by
      rw [expressionText?] at hb
      split at hb
      · next bound hbind => exact ⟨bound, hbind⟩
      · cases hb
    obtain ⟨bound, hbind⟩ := (exists_bind_of_sameArguments x.services parameters ha h).2 hbound
    rw [expressionText?, hbind]
    rfl

/-- A name that no relation of a type has is no slot of a projection of it. -/
lemma relation?_eq_none_of_forall_ne {x : Projector} {t : OutputType} {nodes : List FieldNode}
    {p : Projection} (h : x.projectType t nodes = .ok p) {entry : String}
    (hentry : ∀ f ∈ t.fields, f.relation?.isSome = true → f.name ≠ entry) :
    p.relation? entry = none := by
  rw [Option.eq_none_iff_forall_ne_some]
  intro relation hfound
  obtain ⟨hmem, hfield⟩ := Projection.mem_of_relation? hfound
  obtain ⟨f, hf, r, target, horigin, -⟩ := exists_origin_of_mem h hmem
  have hrelation : f.relation?.isSome = true := by
    rw [FieldDescriptor.relation?, horigin.kind]
    rfl
  exact hentry f hf hrelation (horigin.field.symm.trans hfield)

/-- A column or an alias of a type is no slot of a relation of its projection. -/
lemma relation?_eq_none_of_apart {x : Projector} {name : String} {t : OutputType}
    {nodes : List FieldNode} {p : Projection} (hapart : x.registry.RelationsApart)
    (ht : x.registry.describe name = .ok (some t)) (h : x.projectType t nodes = .ok p)
    {entry : String} (hentry : entry ∈ t.columnNames ∨ entry ∈ t.aliasNames) :
    p.relation? entry = none := by
  refine relation?_eq_none_of_forall_ne h fun f hf hrelation hname => ?_
  obtain ⟨hcolumn, halias⟩ := hapart name t ht f hf hrelation
  rw [hname] at hcolumn halias
  exact hentry.elim hcolumn halias

lemma table_of_projectType {x : Projector} {t : OutputType} {nodes : List FieldNode}
    {p : Projection} (h : x.projectType t nodes = .ok p) : p.table = t.table := by
  obtain ⟨-, parts, -, rfl⟩ := projectType_eq_ok_iff.1 h
  exact Projection.table_assemble t.table parts

/-- The projection of a selection fetches what the selection sees of a row. -/
lemma fetches_of_projectType {x : Projector} {name : String} {t : OutputType}
    {nodes : List FieldNode} {p : Projection} (hapart : x.registry.RelationsApart)
    (hprivacy : x.registry.PrivacyRespectsSame) (ht : x.registry.describe name = .ok (some t))
    (hstored : ∀ node ∈ nodes, ∀ f, node.name ≠ typename → t.field? node.name = some f →
      f.resolver = none ∧ f.kind ≠ .notSelectable)
    (hargs : ∀ node ∈ nodes, (Entries.names node.arguments).Nodup)
    (h : x.projectType t nodes = .ok p) : Fetches x t nodes p := by
  refine ⟨fun node hnode f hsees => hstored node hnode f hsees.1 hsees.2.1, ?_, ?_, ?_⟩
  · intro node hnode f column hsees hkind
    obtain ⟨first, rest, own, -, -, hallows, hown, hwithin⟩ :=
      exists_requestedContribution_within hprivacy ht hargs h hnode hsees
    rw [requestedContribution, if_pos hallows, hkind] at hown
    cases hown
    refine ⟨.inl ?_, relation?_eq_none_of_apart hapart ht h (.inl ?_)⟩
    · rw [Projection.qualify_eq (table_of_projectType h)]
      exact hwithin.columns _ (List.mem_singleton_self _)
    · exact OutputType.mem_columnNames.2 ⟨f, (OutputType.mem_of_field? hsees.2.1).1, hkind⟩
  · intro node hnode f outputAlias e hsees hkind hbound
    obtain ⟨first, rest, own, hrequested, hsame, hallows, hown, hwithin⟩ :=
      exists_requestedContribution_within hprivacy ht hargs h hnode hsees
    -- The expression is bound for the first field of the name, which has the same arguments.
    have hfirst : (x.expressionText? e first.arguments).isSome = true := by
      rcases hsame with rfl | hsame
      · exact hbound
      · have hmem : first ∈ nodes :=
          requested_subset nodes f.name (hrequested ▸ List.mem_cons_self)
        exact x.isSome_expressionText?_of_same e (hargs first hmem) hsame hbound
    obtain ⟨sql, hsql⟩ := Option.isSome_iff_exists.1 hfirst
    rw [requestedContribution, if_pos hallows, hkind] at hown
    simp only [hsql] at hown
    cases hown
    refine ⟨.inr (hwithin.aliases _ (List.mem_singleton_self _)),
      relation?_eq_none_of_apart hapart ht h (.inr ?_)⟩
    exact OutputType.mem_aliasNames.2 ⟨f, (OutputType.mem_of_field? hsees.2.1).1, e, hkind⟩
  · intro node hnode f r hsees hkind
    obtain ⟨entry, target, inner, hfound, hpage, -, htarget, -⟩ :=
      exists_relation_of_sees hprivacy ht hargs h hnode hsees hkind
    exact ⟨entry, _, target, hfound, hpage, htarget⟩

/-- The projection of what is selected of a type, or of the items of an envelope, serves it. -/
theorem serves_of_projectType {x : Projector} (hapart : x.registry.RelationsApart)
    (hprivacy : x.registry.PrivacyRespectsSame) {type : String} {t : OutputType}
    {inner : List FieldNode} {p : Projection}
    (ht : x.registry.describe (itemType (x.registry.envelope? type) type) = .ok (some t))
    (hstored : x.registry.FromStorage type inner) (hargs : ArgumentsDistinct inner)
    (h : x.projectType t (itemNodes (x.registry.envelope? type) inner) = .ok p) :
    Serves x t (itemNodes (x.registry.envelope? type) inner) p := by
  induction hdepth : depths inner using Nat.strongRecOn
    generalizing type t inner p with
  | _ n ih =>
  subst hdepth
  have hfetches : Fetches x t (itemNodes (x.registry.envelope? type) inner) p :=
    fetches_of_projectType hapart hprivacy ht
      (fun node hnode f => hstored t node f (.here ht hnode))
      (fun node hnode => hargs node (Occurs.of_itemNodes (.here hnode))) h
  refine .intro hfetches ?_
  intro node hnode f r entry child target hsees hkind hfound htarget
  obtain ⟨htypename, hf, -⟩ := hsees
  obtain ⟨hf', hname⟩ := OutputType.mem_of_field? hf
  obtain ⟨hmem, hfield⟩ := Projection.mem_of_relation? hfound
  obtain ⟨g, hg, r', target', horigin, -⟩ := exists_origin_of_mem h hmem
  have hgf : g = f := Registry.eq_of_name_eq ht hg hf' (horigin.field.symm.trans hfield)
  subst hgf
  have htargets : target' = target := by
    have heq := horigin.described.symm.trans htarget
    cases heq
    rfl
  subst htargets
  have hrequested : node ∈ requested (itemNodes (x.registry.envelope? type) inner) node.name :=
    mem_requested.2 ⟨hnode, rfl, htypename⟩
  -- The field is requested, so the relation has been projected for all fields of its name.
  rcases horigin.below with ⟨hnone, -⟩ | ⟨first, rest, below, hfirst, hbelow, heq⟩
  · rw [hname] at hnone
    rw [hnone] at hrequested
    cases hrequested
  · rw [hname] at hfirst
    rw [← hfirst] at hbelow
    simp only at heq
    subst heq
    refine Serves.addColumn (ih _ ?_ htarget ?_ ?_ hbelow rfl) _
    · exact Nat.lt_of_lt_of_le
        (depths_childrenOf_lt (requested_subset _ node.name) (List.ne_nil_of_mem hrequested))
        (depths_itemNodes_le _ inner)
    · refine Registry.FromStorage.of_forall fun other hother => ?_
      obtain ⟨hin, hsame, hne⟩ := mem_requested.1 hother
      exact hstored.below ht hin hne (hsame.symm ▸ hf) hkind
    · intro deep hdeep
      exact hargs deep
        (Occurs.of_itemNodes ((Occurs.of_childrenOf hdeep).mono (requested_subset _ _)))

/-- A selection on a type, or on an envelope of one, has the projection of the type; nothing is
known of a type that is not registered. -/
theorem project_cases {x : Projector} {type : String} {nodes : List FieldNode} {p : Projection}
    (h : x.project type nodes = .ok p) :
    (x.registry.describe (itemType (x.registry.envelope? type) type) = .ok none ∧
        p = .ofTable none) ∨
      ∃ t, x.registry.describe (itemType (x.registry.envelope? type) type) = .ok (some t) ∧
        x.projectType t (itemNodes (x.registry.envelope? type) nodes) = .ok p := by
  rw [project] at h
  split at h
  · cases h
  · split at h
    · cases h
    · next hnone =>
      cases h
      exact .inl ⟨hnone, rfl⟩
    · next t ht => exact .inr ⟨t, ht, h⟩

lemma project_spec {x : Projector} {type : String} {nodes : List FieldNode} {p : Projection}
    (h : x.project type nodes = .ok p) :
    p = .ofTable none ∨
      ∃ t, x.registry.describe (itemType (x.registry.envelope? type) type) = .ok (some t) ∧
        x.projectType t (itemNodes (x.registry.envelope? type) nodes) = .ok p :=
  (project_cases h).imp_left And.right

end Projector

end GraphProjection
