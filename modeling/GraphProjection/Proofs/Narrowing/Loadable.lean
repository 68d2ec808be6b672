import GraphProjection.Proofs.Narrowing.Relations
import GraphProjection.Proofs.Projection.Serving
import GraphProjection.Proofs.RowSlots

/-!
# Projections of selections can be loaded

What `Projection.Loadable` asks for is met by the projection of any selection on a registry whose
relations keep their names apart from what is read, and whose constraints register no relations.

Every relation of the projection comes from a field of the type (`Projector.Origin`), with the
column of its local key in the projection and that of its foreign key in its own.  The fields of a
type have distinct names, so the relations have slots of their own.
-/

namespace GraphProjection

namespace Registry

/-- The relations of every type keep their names apart from what is read of the type's rows. -/
def SlotsApartThroughout (r : Registry) : Prop :=
  ∀ name t, r.describe name = .ok (some t) → r.SlotsApart t

/-- No constraint of a relation registers relations. -/
def ConstraintsLoadNothing (r : Registry) : Prop :=
  ∀ name t, r.describe name = .ok (some t) → ∀ f ∈ t.fields, ∀ relation constraint,
    f.kind = .relation relation → relation.constraint = some constraint →
      ∀ arguments, ∀ e ∈ constraint arguments, e.isQuiet = true

/-- Where no relation has a constraint, none registers relations. -/
lemma constraintsLoadNothing_of_isNone {r : Registry}
    (h : r.allDescribed (fun t => t.fields.all fun f =>
      f.relation?.all (·.constraint.isNone)) = true) : r.ConstraintsLoadNothing := by
  intro name t ht f hf relation constraint hk hconstraint
  have hnone := List.all_eq_true.1 (allDescribed_eq_true_iff.1 h name t ht) f hf
  simp [FieldDescriptor.relation?, hk, hconstraint] at hnone

/-- A relation that keeps its name apart from what is read has neither the name of a column nor
that of an alias. -/
theorem SlotsApartThroughout.relationsApart {r : Registry} (h : r.SlotsApartThroughout) :
    r.RelationsApart := by
  intro name t ht f hf hrelation
  have hslot : f.name ∈ t.slotNames := OutputType.mem_slotNames.2 ⟨f, hf, rfl, hrelation⟩
  refine ⟨fun hcolumn => ?_, fun halias => ?_⟩
  · obtain ⟨g, hg, hk⟩ := OutputType.mem_columnNames.1 hcolumn
    exact h name t ht _ hslot (.column hg hk)
  · obtain ⟨g, hg, e, hk⟩ := OutputType.mem_aliasNames.1 halias
    exact h name t ht _ hslot (.computed hg hk)

/-- The entries of rows that a field reads, at either end of a relation. -/
def entryNames (f : FieldDescriptor) : List String :=
  match f.kind with
  | .column column => [column]
  | .computed outputAlias _ => [outputAlias]
  | .relation relation => [relation.localKey, relation.foreignKey]
  | .notSelectable => []

/-- No relation has a name that the fields of its own type read: that of a column, of an alias, or
of a key of one of its relations. -/
def NamesApart (r : Registry) : Prop :=
  ∀ name t, r.describe name = .ok (some t) → ∀ slot ∈ t.slotNames, ∀ f ∈ t.fields,
    slot ∉ entryNames f

lemma namesApart_of_check {r : Registry}
    (h : r.allDescribed (fun t => t.slotNames.all fun slot =>
      t.fields.all fun f => !(entryNames f).contains slot) = true) : r.NamesApart := by
  intro name t ht slot hslot f hf
  have hcheck := List.all_eq_true.1 (List.all_eq_true.1
    (allDescribed_eq_true_iff.1 h name t ht) slot hslot) f hf
  simpa using hcheck

/-- Where no relation of any type has a name that a field of any type reads, the names are
apart. -/
theorem SlotsApartThroughout.of_disjoint {r : Registry} (slots : List String)
    (hslots : r.allDescribed (fun t => t.slotNames.all (slots.contains ·)) = true)
    (hentries : r.allDescribed (fun t => t.fields.all fun f =>
      (entryNames f).all fun entry => !slots.contains entry) = true) :
    r.SlotsApartThroughout := by
  rw [allDescribed_eq_true_iff] at hslots hentries
  have hread : ∀ name t, r.describe name = .ok (some t) → ∀ f ∈ t.fields,
      ∀ entry ∈ entryNames f, entry ∉ slots := by
    intro name t ht f hf entry hentry
    have hcheck := List.all_eq_true.1 (List.all_eq_true.1 (hentries name t ht) f hf) entry hentry
    simpa using hcheck
  intro name t ht slot hslot hreads
  have hin : slot ∈ slots := by
    have hcheck := List.all_eq_true.1 (hslots name t ht) slot hslot
    simpa using hcheck
  cases hreads with
  | column hf hk => exact hread name t ht _ hf slot (by simp [entryNames, hk]) hin
  | computed hf hk => exact hread name t ht _ hf slot (by simp [entryNames, hk]) hin
  | localKey hf hk => exact hread name t ht _ hf _ (by simp [entryNames, hk]) hin
  | foreignKey hs hf hk _ => exact hread _ _ hs _ hf _ (by simp [entryNames, hk]) hin

end Registry

lemma Projection.HoldsApart.addColumn {p : Projection} {name : String} (h : p.HoldsApart name)
    (column : String) : (p.addColumn column).HoldsApart name :=
  ⟨h.1.addColumn column, (p.relation?_addColumn column name).trans h.2⟩

lemma Projection.Loadable.addColumn {p : Projection} (h : p.Loadable) (column : String) :
    (p.addColumn column).Loadable := by
  cases h with
  | intro distinct localKey foreignKey quiet below =>
  have hrelations := p.relations_addColumn column
  refine .intro ?_ ?_ ?_ ?_ ?_
  · rw [hrelations]
    exact distinct
  · rw [hrelations]
    intro relation hmem
    exact (localKey relation hmem).addColumn column
  · rw [hrelations]
    exact foreignKey
  · rw [hrelations]
    exact quiet
  · rw [hrelations]
    exact below

namespace Projector

open FieldNode

variable {x : Projector} {t : OutputType} {nodes : List FieldNode} {p : Projection}

/-! ## Slots -/

/-- An entry that is read of the rows of a type is no slot of a projection of it. -/
lemma relation?_eq_none_of_reads {name : String} (hslots : x.registry.SlotsApart t)
    (h : x.projectType t nodes = .ok p) (hreads : x.registry.Reads t name) :
    p.relation? name = none := by
  refine relation?_eq_none_of_forall_ne h fun f hf hrelation hname => ?_
  exact hslots name (OutputType.mem_slotNames.2 ⟨f, hf, hname, hrelation⟩) hreads

/-! ## Forced relations -/

lemma relations_forcedProjection (target : OutputType) (r : RelationDescriptor) :
    (forcedProjection target r).relations = [] := by
  rw [forcedProjection, Projection.relations_addColumn, Projection.relations_addColumns]
  rfl

lemma holdsApart_forcedProjection (target : OutputType) (r : RelationDescriptor) :
    (forcedProjection target r).HoldsApart r.foreignKey := by
  have htable : (forcedProjection target r).table = target.table := by
    rw [forcedProjection, Projection.table_addColumn, Projection.table_addColumns]
    rfl
  have hholds : (forcedProjection target r).Holds r.foreignKey := by
    left
    rw [Projection.qualify_eq htable, forcedProjection]
    exact (Projection.mem_columns_addColumn _ _ _).2 (.inr rfl)
  refine ⟨hholds, ?_⟩
  rw [Projection.relation?, relations_forcedProjection]
  rfl

lemma loadable_of_relations_eq_nil (h : p.relations = []) : p.Loadable := by
  refine .intro ?_ ?_ ?_ ?_ ?_ <;> rw [h]
  · exact List.nodup_nil
  all_goals exact fun relation hmem => absurd hmem List.not_mem_nil

/-! ## Keys and constraints -/

lemma Origin.localKey {f : FieldDescriptor} {r : RelationDescriptor} {target : OutputType}
    {relation : RelationEntry × Projection} (h : Origin x nodes f r target relation) :
    relation.1.target.localKey = r.localKey := by
  obtain ⟨arguments, hentry⟩ := h.entry
  rw [hentry]
  rfl

lemma Origin.foreignKey {f : FieldDescriptor} {r : RelationDescriptor} {target : OutputType}
    {relation : RelationEntry × Projection} (h : Origin x nodes f r target relation) :
    relation.1.target.foreignKey = r.foreignKey := by
  obtain ⟨arguments, hentry⟩ := h.entry
  rw [hentry]
  rfl

/-- The projection of a type holds the local keys of its relations. -/
lemma holdsApart_localKey (hslots : x.registry.SlotsApart t)
    (h : x.projectType t nodes = .ok p) {relation : RelationEntry × Projection}
    (hmem : relation ∈ p.relations) : p.HoldsApart relation.1.target.localKey := by
  obtain ⟨f, hf, r, target, horigin, hkey⟩ := exists_origin_of_mem h hmem
  rw [← Projection.qualify_eq (table_of_projectType h)] at hkey
  rw [horigin.localKey]
  exact ⟨.inl hkey, relation?_eq_none_of_reads hslots h (.localKey hf horigin.kind)⟩

/-- The projection of a relation holds the foreign key by which its rows are matched. -/
lemma holdsApart_foreignKey (hslots : x.registry.SlotsApartThroughout) {name : String}
    (ht : x.registry.describe name = .ok (some t)) (h : x.projectType t nodes = .ok p)
    {relation : RelationEntry × Projection} (hmem : relation ∈ p.relations) :
    relation.2.HoldsApart relation.1.target.foreignKey := by
  obtain ⟨f, hf, r, target, horigin, -⟩ := exists_origin_of_mem h hmem
  rw [horigin.foreignKey]
  rcases horigin.below with ⟨-, hforced⟩ | ⟨first, rest, child, -, hchild, hadded⟩
  · rw [hforced]
    exact holdsApart_forcedProjection target r
  · have hnone : child.relation? r.foreignKey = none :=
      relation?_eq_none_of_reads (hslots _ target horigin.described) hchild
        (.foreignKey ht hf horigin.kind horigin.described)
    have htable : (child.addColumn (target.qualify r.foreignKey)).table = target.table := by
      rw [Projection.table_addColumn, table_of_projectType hchild]
    have hholds : (child.addColumn (target.qualify r.foreignKey)).Holds r.foreignKey := by
      left
      rw [Projection.qualify_eq htable]
      exact (Projection.mem_columns_addColumn _ _ _).2 (.inr rfl)
    rw [hadded]
    exact ⟨hholds, (child.relation?_addColumn _ _).trans hnone⟩

lemma isQuiet_constraintEdits (hquiet : x.registry.ConstraintsLoadNothing) {name : String}
    (ht : x.registry.describe name = .ok (some t)) (h : x.projectType t nodes = .ok p)
    {relation : RelationEntry × Projection} (hmem : relation ∈ p.relations) :
    ∀ e ∈ relation.1.constraintEdits, e.isQuiet = true := by
  obtain ⟨f, hf, r, target, horigin, -⟩ := exists_origin_of_mem h hmem
  obtain ⟨arguments, hentry⟩ := horigin.entry
  intro e he
  rw [hentry, RelationEntry.constraintEdits, relationEntry] at he
  split at he
  · next constraint hconstraint =>
    exact hquiet name t ht f hf r constraint horigin.kind hconstraint arguments e he
  · cases he

/-! ## All relations -/

/-- What holds of projections without relations, is kept by adding a column, and goes up from the
relations of a projection of a type to the projection, holds of every projection of a selection;
it may be a property of a type and a projection of it.  The induction is on the depth of the
selection, for the types may refer to each other in circles. -/
theorem typed_induction_of_projectType {motive : String → Projection → Prop}
    (nil : ∀ (type : String) (p : Projection), p.relations = [] → motive type p)
    (addColumn : ∀ (type : String) (p : Projection) (column : String), motive type p →
      motive type (p.addColumn column))
    (up : ∀ name t nodes p, x.registry.describe name = .ok (some t) →
      x.projectType t nodes = .ok p →
      (∀ relation ∈ p.relations, motive relation.1.targetType relation.2) → motive name p)
    {name : String} (ht : x.registry.describe name = .ok (some t))
    (h : x.projectType t nodes = .ok p) : motive name p := by
  induction hdepth : depths nodes using Nat.strongRecOn generalizing name t nodes p with
  | _ n ih =>
  subst hdepth
  refine up name t nodes p ht h fun relation hmem => ?_
  obtain ⟨f, hf, r, target, horigin, -⟩ := exists_origin_of_mem h hmem
  -- A forced relation has no relations of its own; below a requested one the selection is less
  -- deep.
  rcases horigin.below with ⟨-, hforced⟩ | ⟨first, rest, child, hrequested, hchild, hadded⟩
  · rw [hforced]
    exact nil _ _ (relations_forcedProjection target r)
  · have hsubset : first :: rest ⊆ nodes := hrequested ▸ requested_subset nodes f.name
    have hlt : depths (itemNodes (x.registry.envelope? f.type.namedType)
        (childrenOf (first :: rest))) < depths nodes :=
      Nat.lt_of_le_of_lt (depths_itemNodes_le _ _)
        (depths_childrenOf_lt hsubset (List.cons_ne_nil first rest))
    have htarget : relation.1.targetType =
        itemType (x.registry.envelope? f.type.namedType) f.type.namedType := by
      obtain ⟨arguments, hentry⟩ := horigin.entry
      rw [hentry]
      exact Registry.name_of_describe horigin.described
    rw [hadded, htarget]
    exact addColumn _ child _ (ih _ hlt horigin.described hchild rfl)

/-- The induction for properties that are the same for every type. -/
lemma induction_of_projectType {motive : Projection → Prop}
    (nil : ∀ p : Projection, p.relations = [] → motive p)
    (addColumn : ∀ (p : Projection) (column : String), motive p → motive (p.addColumn column))
    (up : ∀ name t nodes p, x.registry.describe name = .ok (some t) →
      x.projectType t nodes = .ok p → (∀ relation ∈ p.relations, motive relation.2) → motive p)
    {name : String} (ht : x.registry.describe name = .ok (some t))
    (h : x.projectType t nodes = .ok p) : motive p :=
  typed_induction_of_projectType (motive := fun _ p => motive p) (fun _ => nil)
    (fun _ => addColumn) up ht h

/-- **The projection of a selection can be loaded**, whatever the selection is. -/
theorem loadable_of_projectType (hslots : x.registry.SlotsApartThroughout)
    (hquiet : x.registry.ConstraintsLoadNothing) {name : String}
    (ht : x.registry.describe name = .ok (some t)) (h : x.projectType t nodes = .ok p) :
    p.Loadable := by
  refine induction_of_projectType (fun p => loadable_of_relations_eq_nil)
    (fun p column hp => hp.addColumn column) (fun name t nodes p ht h below => ?_) ht h
  apply Projection.Loadable.intro
  · exact nodup_slots_of_projectType ht h
  · exact fun relation hmem => holdsApart_localKey (hslots name t ht) h hmem
  · exact fun relation hmem => holdsApart_foreignKey hslots ht h hmem
  · exact fun relation hmem => isQuiet_constraintEdits hquiet ht h hmem
  · exact below

end Projector

end GraphProjection
