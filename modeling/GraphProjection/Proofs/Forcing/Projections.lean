import GraphProjection.Proofs.Forcing.Policies
import GraphProjection.Proofs.Projection.Exactness

/-!
# Projections with forced relations

Under the policy that forces relations, the projection of a selection has what it has under the
other one, and more: further columns, and further relations among those that were requested, at
every depth (`Projection.ForcedBeyond`, `alike_project`).

In between stands the projection that has all the columns but only the requested relations.
`ForcedAmong` relates the relations of the three.  The one in between serves whatever the first one
serves, is the same when widened, and reads nothing that lies in the slot of a forced relation
(`slotsUnread_of_projectType`).
-/

namespace GraphProjection

/-! ## Outcomes of folds -/

lemma OutcomesAlike.map {ε α β γ δ : Type} {R : α → β → Prop} {S : γ → δ → Prop}
    {outcome : Except ε α} {other : Except ε β} (h : OutcomesAlike R outcome other) {f : α → γ}
    {g : β → δ} (hmap : ∀ a b, R a b → S (f a) (g b)) :
    OutcomesAlike S (outcome.map f) (other.map g) := by
  cases h with
  | error e => exact .error e
  | ok hab => exact .ok (hmap _ _ hab)

lemma OutcomesAlike.foldlM {ε α β γ : Type} {R : α → β → Prop} {f : α → γ → Except ε α}
    {g : β → γ → Except ε β} {xs : List γ}
    (hstep : ∀ x ∈ xs, ∀ a b, R a b → OutcomesAlike R (f a x) (g b x)) {a : α} {b : β}
    (h : R a b) : OutcomesAlike R (xs.foldlM f a) (xs.foldlM g b) := by
  induction xs generalizing a b with
  | nil => exact .ok h
  | cons x rest ih =>
    rw [List.foldlM_cons, List.foldlM_cons]
    rcases (hstep x List.mem_cons_self a b h).exists_eq with ⟨e, hf, hg⟩ | ⟨c, d, hf, hg, hnext⟩
    · rw [hf, hg]
      exact .error e
    · rw [hf, hg]
      exact ih (fun y hy => hstep y (List.mem_cons_of_mem _ hy)) hnext

namespace Projection

/-! ## Relations among which some are forced -/

/-- A projection with other relations. -/
def withRelations (p : Projection) (relations : List (RelationEntry × Projection)) : Projection :=
  { p with relations := relations }

lemma widened_eq_of_relations {p q : Projection} (htable : p.table = q.table)
    (hexpressions : p.expressions = q.expressions)
    (hrelations : widenedRelations p.relations = widenedRelations q.relations) :
    p.widened = q.widened := by
  obtain ⟨table, columns, expressions, relations⟩ := p
  obtain ⟨table', columns', expressions', relations'⟩ := q
  cases htable
  cases hexpressions
  rw [widened, widened, hrelations]

/-- No slot of a relation is kept as an entry of the row. -/
def SlotsUnread (p : Projection) : Prop :=
  ∀ name, (p.relation? name).isSome = true → p.keeps name = false

/-- Requested relations and the same relations with forced ones among them, at every depth.  The
relations `kept` are those of `loaded` that are not forced, with all the columns of `loaded`. -/
inductive ForcedAmong : (asked kept loaded : List (RelationEntry × Projection)) → Prop
  | nil : ForcedAmong [] [] []
  | keep {entry : RelationEntry} {asked loaded : Projection}
      {below requested kept all : List (RelationEntry × Projection)}
      (table : loaded.table = asked.table) (columns : asked.columns ⊆ loaded.columns)
      (expressions : loaded.expressions = asked.expressions) (unread : loaded.SlotsUnread)
      (inside : ForcedAmong asked.relations below loaded.relations)
      (rest : ForcedAmong requested kept all) :
      ForcedAmong ((entry, asked) :: requested)
        ((entry, loaded.withRelations below) :: kept) ((entry, loaded) :: all)
  | force {entry : RelationEntry} {child : Projection}
      {requested kept all : List (RelationEntry × Projection)} (arguments : entry.arguments = [])
      (bare : child.relations = []) (rest : ForcedAmong requested kept all) :
      ForcedAmong requested kept ((entry, child) :: all)

namespace ForcedAmong

variable {asked kept loaded : List (RelationEntry × Projection)}

lemma append {asked' kept' loaded' : List (RelationEntry × Projection)}
    (h : ForcedAmong asked kept loaded) (h' : ForcedAmong asked' kept' loaded') :
    ForcedAmong (asked ++ asked') (kept ++ kept') (loaded ++ loaded') := by
  induction h with
  | nil => exact h'
  | keep table columns expressions unread inside _ _ ih =>
    exact .keep table columns expressions unread inside ih
  | force arguments bare _ ih => exact .force arguments bare ih

/-- What is kept has its slots among those of what is loaded, in order. -/
lemma slots_sublist (h : ForcedAmong asked kept loaded) :
    (kept.map (·.1.target.field)).Sublist (loaded.map (·.1.target.field)) := by
  induction h with
  | nil => exact .slnil
  | keep _ _ _ _ _ _ _ ih => exact ih.cons_cons _
  | force _ _ _ ih => exact ih.cons _

/-- What is kept is what is asked for when the columns are forgotten. -/
lemma widenedRelations_eq (h : ForcedAmong asked kept loaded) :
    widenedRelations asked = widenedRelations kept := by
  induction h with
  | nil => rfl
  | @keep entry asked loaded below requested kept all table _ expressions _ _ _ hbelow ih =>
    have hwidened : asked.widened = (loaded.withRelations below).widened :=
      widened_eq_of_relations table.symm expressions.symm hbelow
    rw [widenedRelations, widenedRelations, ih, hwidened]
  | force _ _ _ ih => exact ih

end ForcedAmong

/-- A projection has what another one has, further columns, and forced relations among the
others. -/
structure ForcedBeyond (asked loaded : Projection) : Prop where
  table : loaded.table = asked.table
  columns : asked.columns ⊆ loaded.columns
  expressions : loaded.expressions = asked.expressions
  relations : ∃ kept, ForcedAmong asked.relations kept loaded.relations

lemma addColumns_subset {p q : Projection} (h : p.columns ⊆ q.columns)
    {columns more : List String} (hmore : columns ⊆ more) :
    (p.addColumns columns).columns ⊆ (q.addColumns more).columns := by
  intro column hcolumn
  rw [mem_columns_addColumns] at hcolumn ⊢
  exact hcolumn.imp (fun hp => h hp) (fun hc => hmore hc)

/-- Which expressions there are after some more are added depends on the expressions alone. -/
lemma expressions_addExpressions_congr {p q : Projection} (h : p.expressions = q.expressions)
    (expressions : List (String × String)) :
    (p.addExpressions expressions).expressions = (q.addExpressions expressions).expressions := by
  induction expressions generalizing p q with
  | nil => exact h
  | cons e rest ih =>
    refine ih ?_
    show (p.addExpression e.1 e.2).expressions = (q.addExpression e.1 e.2).expressions
    rw [addExpression, addExpression, h]
    split
    · exact h
    · rfl

namespace ForcedBeyond

variable {asked loaded : Projection}

lemma refl_ofTable (table : Option String) : ForcedBeyond (.ofTable table) (.ofTable table) :=
  ⟨rfl, fun _ hcolumn => hcolumn, rfl, [], .nil⟩

lemma addColumn (h : ForcedBeyond asked loaded) (column : String) :
    ForcedBeyond (asked.addColumn column) (loaded.addColumn column) where
  table := by rw [table_addColumn, table_addColumn, h.table]
  columns := addColumns_subset h.columns (List.Subset.refl [column])
  expressions := by rw [expressions_addColumn, expressions_addColumn, h.expressions]
  relations := by
    rw [relations_addColumn, relations_addColumn]
    exact h.relations

end ForcedBeyond

end Projection

/-- A contribution has what another one has, further columns, and perhaps a forced relation. -/
structure Contribution.ForcedBeyond (asked loaded : Contribution) : Prop where
  columns : asked.columns ⊆ loaded.columns
  expressions : loaded.expressions = asked.expressions
  relations : ∃ kept, Projection.ForcedAmong asked.relations kept loaded.relations

lemma Contribution.ForcedBeyond.of_relations_eq_nil {c : Contribution} (h : c.relations = []) :
    c.ForcedBeyond c :=
  ⟨List.Subset.refl _, rfl, [], h ▸ .nil⟩

lemma Contribution.ForcedBeyond.behind {asked loaded : Contribution}
    (h : asked.ForcedBeyond loaded) (columns : List String) :
    (asked.behind columns).ForcedBeyond (loaded.behind columns) :=
  ⟨List.append_subset.2 ⟨List.subset_append_left _ _,
    List.Subset.trans h.columns (List.subset_append_right _ _)⟩, h.expressions, h.relations⟩

lemma Projection.ForcedBeyond.extend {p q : Projection} (h : p.ForcedBeyond q)
    {c d : Contribution} (h' : c.ForcedBeyond d) : (p.extend c).ForcedBeyond (q.extend d) where
  table := by rw [table_extend, table_extend, h.table]
  columns := by
    intro column hcolumn
    rw [mem_columns_extend] at hcolumn ⊢
    exact hcolumn.imp (fun hp => h.columns hp) (fun hc => h'.columns hc)
  expressions := by
    show ((q.addColumns d.columns).addExpressions d.expressions).expressions =
      ((p.addColumns c.columns).addExpressions c.expressions).expressions
    rw [h'.expressions]
    apply expressions_addExpressions_congr
    rw [expressions_addColumns, expressions_addColumns, h.expressions]
  relations := by
    obtain ⟨kept, hkept⟩ := h.relations
    obtain ⟨kept', hkept'⟩ := h'.relations
    exact ⟨kept ++ kept', hkept.append hkept'⟩

/-! ## What is served -/

namespace Projector

open FieldNode Projection

variable {x : Projector} {asked loaded : Projection}
  {requested kept all : List (RelationEntry × Projection)}

/-- With further columns, and relations that serve the same under the same entries, a projection
serves the same. -/
theorem Serves.of_columns_subset {t : OutputType} {nodes : List FieldNode}
    (h : Serves x t nodes asked) {p : Projection} (htable : p.table = asked.table)
    (hcolumns : asked.columns ⊆ p.columns) (hexpressions : p.expressions = asked.expressions)
    (hrelations : ∀ name, Option.Rel (fun own other =>
      own.1 = other.1 ∧ ∀ t nodes, Serves x t nodes own.2 → Serves x t nodes other.2)
      (asked.relation? name) (p.relation? name)) : Serves x t nodes p := by
  have hholds : ∀ name, asked.Holds name → p.Holds name := by
    intro name hname
    rw [Holds, qualify, htable, hexpressions]
    exact hname.imp (fun hcolumn => hcolumns hcolumn) id
  have hnone : ∀ name, asked.relation? name = none → p.relation? name = none := by
    intro name hname
    have hrelation := hrelations name
    rw [hname] at hrelation
    generalize p.relation? name = found at hrelation
    cases hrelation
    rfl
  -- Columns may only be added, while whatever is looked up under a name of a relation must be found
  -- there again.
  cases h with
  | intro here under =>
  refine .intro ⟨here.stored, ?_, ?_, ?_⟩ ?_
  · intro node hnode f column hsees hkind
    exact (here.column node hnode f column hsees hkind).imp (hholds column) (hnone column)
  · intro node hnode f outputAlias e hsees hkind hbound
    exact (here.computed node hnode f outputAlias e hsees hkind hbound).imp (hholds outputAlias)
      (hnone outputAlias)
  · intro node hnode f r hsees hkind
    obtain ⟨entry, child, target, hfound, hpage, htarget⟩ := here.slot node hnode f r hsees hkind
    have hrelation := hrelations f.name
    rw [hfound] at hrelation
    generalize hown : p.relation? f.name = found at hrelation
    cases hrelation with
    | some hpair => exact ⟨_, _, target, rfl, hpair.1 ▸ hpage, htarget⟩
  · intro node hnode f r entry child target hsees hkind hfound htarget
    have hrelation := hrelations f.name
    rw [hfound] at hrelation
    generalize hown : asked.relation? f.name = found at hrelation
    cases hrelation with
    | some hpair => exact hpair.2 _ _ (under node hnode f r _ _ target hsees hkind hown htarget)

/-- Under every name, the relation that is kept serves what the one that is asked for serves. -/
lemma serves_find?_of_forcedAmong (h : ForcedAmong requested kept all) (name : String) :
    Option.Rel (fun own other =>
        own.1 = other.1 ∧ ∀ t nodes, Serves x t nodes own.2 → Serves x t nodes other.2)
      (requested.find? (·.1.target.field == name)) (kept.find? (·.1.target.field == name)) := by
  induction h generalizing name with
  | nil => exact .none
  | @keep entry asked loaded below requested kept all table columns expressions _ _ _ hbelow ih =>
    rw [List.find?_cons, List.find?_cons]
    cases hname : entry.target.field == name with
    | true =>
      refine .some ⟨rfl, fun t nodes hserves => ?_⟩
      exact hserves.of_columns_subset table columns expressions hbelow
    | false => exact ih name
  | force _ _ _ ih => exact ih name

/-- What is loaded serves, without the forced relations, what is asked for. -/
lemma Serves.of_forcedBeyond {t : OutputType} {nodes : List FieldNode}
    (h : Serves x t nodes asked) (hbeyond : asked.ForcedBeyond loaded)
    (hkept : ForcedAmong asked.relations kept loaded.relations) :
    Serves x t nodes (loaded.withRelations kept) :=
  h.of_columns_subset hbeyond.table hbeyond.columns hbeyond.expressions
    (serves_find?_of_forcedAmong hkept)

/-! ## Slots that are not read -/

lemma qualify_injective (t : OutputType) : Function.Injective t.qualify := by
  intro a b h
  cases htable : t.table with
  | none => simpa [OutputType.qualify, htable] using h
  | some table =>
    have happend : table ++ "." ++ a = table ++ "." ++ b := by
      simpa only [OutputType.qualify, htable] using h
    simp only [← String.toList_inj, String.toList_append] at happend
    exact String.toList_inj.1 (List.append_cancel_left happend)

/-- The entries that the projection of a type holds are read of its rows. -/
lemma reads_of_holds {name : String} {t : OutputType} {nodes : List FieldNode} {p : Projection}
    (ht : x.registry.describe name = .ok (some t)) (h : x.projectType t nodes = .ok p)
    {entry : String} (hholds : p.Holds entry) : x.registry.Reads t entry := by
  have htight := tight_of_projectType ht h
  rcases hholds with hcolumn | halias
  · rw [qualify_eq htight.table, htight.mem_columns] at hcolumn
    rcases hcolumn with ⟨f, hf, c, hkind, heq, -⟩ | ⟨relation, hmem, heq⟩ | hmatching
    · obtain rfl := qualify_injective t heq
      exact .column hf hkind
    · obtain ⟨f, hf, r, target, horigin, -⟩ := exists_origin_of_mem h hmem
      rw [horigin.localKey] at heq
      obtain rfl := qualify_injective t heq
      exact .localKey hf horigin.kind
    · cases hmatching
  · obtain ⟨⟨sql, outputAlias⟩, hmem, rfl⟩ := List.mem_map.1 halias
    obtain ⟨f, hf, e, arguments, hkind, -⟩ := (htight.mem_expressions sql outputAlias).1 hmem
    exact .computed hf hkind

/-- Where a projection has relations it has columns, and then it keeps no more than it holds. -/
lemma slotsUnread_of_not_holds {p : Projection}
    (h : ∀ slot, (p.relation? slot).isSome = true → p.columns ≠ [] ∧ ¬ p.Holds slot) :
    p.SlotsUnread := by
  intro slot hslot
  obtain ⟨hcolumns, hholds⟩ := h slot hslot
  rw [Bool.eq_false_iff]
  intro hkeeps
  rw [keeps, Bool.or_eq_true, Bool.or_eq_true] at hkeeps
  rcases hkeeps with (hempty | hcolumn) | halias
  · exact hcolumns (List.isEmpty_iff.1 hempty)
  · exact hholds (.inl (List.contains_iff_mem.1 hcolumn))
  · obtain ⟨e, he, hname⟩ := List.any_eq_true.1 halias
    exact hholds (.inr (List.mem_map.2 ⟨e, he, beq_iff_eq.1 hname⟩))

/-- A projection of a type reads nothing that lies in a slot, nor does it when a column is added
that is read of the rows of the type. -/
theorem slotsUnread_of_projectType (hslots : x.registry.SlotsApartThroughout) {name : String}
    {t : OutputType} {nodes : List FieldNode} {p : Projection}
    (ht : x.registry.describe name = .ok (some t)) (h : x.projectType t nodes = .ok p) :
    p.SlotsUnread ∧ ∀ entry, x.registry.Reads t entry →
      (p.addColumn (t.qualify entry)).SlotsUnread := by
  -- A relation brings the column of its key with it, so there is no projection of relations alone
  -- that would read every entry.
  have hslot : ∀ slot, (p.relation? slot).isSome = true →
      p.columns ≠ [] ∧ ¬ x.registry.Reads t slot := by
    intro slot hslot
    obtain ⟨relation, hfound⟩ := Option.isSome_iff_exists.1 hslot
    obtain ⟨hmem, -⟩ := mem_of_relation? hfound
    obtain ⟨f, hf, r, target, -, hkey⟩ := exists_origin_of_mem h hmem
    refine ⟨List.ne_nil_of_mem hkey, fun hreads => ?_⟩
    rw [relation?_eq_none_of_reads (hslots name t ht) h hreads] at hfound
    cases hfound
  refine ⟨slotsUnread_of_not_holds fun slot hfound => ?_, fun entry hentry => ?_⟩
  · obtain ⟨hcolumns, hreads⟩ := hslot slot hfound
    exact ⟨hcolumns, fun hholds => hreads (reads_of_holds ht h hholds)⟩
  · refine slotsUnread_of_not_holds fun slot hfound => ?_
    rw [relation?_addColumn] at hfound
    obtain ⟨-, hreads⟩ := hslot slot hfound
    have hadded : ∀ column, column ∈ (p.addColumn (t.qualify entry)).columns ↔
        column ∈ p.columns ∨ column = t.qualify entry := mem_columns_addColumn p _
    refine ⟨List.ne_nil_of_mem ((hadded _).2 (.inr rfl)), fun hholds => ?_⟩
    rw [Holds, expressions_addColumn, hadded, qualify_eq ((table_addColumn p _).trans
      (table_of_projectType h))] at hholds
    rcases hholds with (hcolumn | heq) | halias
    · rw [← qualify_eq (table_of_projectType h)] at hcolumn
      exact hreads (reads_of_holds ht h (.inl hcolumn))
    · exact hreads (qualify_injective t heq ▸ hentry)
    · exact hreads (reads_of_holds ht h (.inr halias))

/-! ## Contributions under either policy -/

lemma forcedContribution_currentLevel (t : OutputType) (f : FieldDescriptor) :
    (x.withPolicy .currentLevel).forcedContribution t f = .ok .none := by
  rw [forcedContribution]
  cases f.kind <;> rfl

/-- What is forced is forced without fail, and comes on top. -/
lemma exists_forcedContribution_eagerLoadRelations (hx : x.registry.TargetsDescribed)
    {name : String} {t : OutputType} (ht : x.registry.describe name = .ok (some t))
    {f : FieldDescriptor} (hf : f ∈ t.fields) :
    ∃ c, (x.withPolicy .eagerLoadRelations).forcedContribution t f = .ok c ∧
      Contribution.none.ForcedBeyond c := by
  have hnone : Contribution.none.ForcedBeyond .none := .of_relations_eq_nil rfl
  rw [forcedContribution]
  cases hkind : f.kind with
  | relation r =>
    obtain ⟨target, htarget⟩ := hx name t ht f hf r hkind
    simp only [registry_withPolicy, Registry.alwaysSelect_withPolicy, if_true,
      Registry.envelope?_withPolicy, Registry.expect_withPolicy,
      Registry.expect_eq_ok_iff.2 htarget]
    split
    · refine ⟨_, rfl, List.nil_subset _, rfl, [], ?_⟩
      exact .force rfl (relations_forcedProjection target r) .nil
    · exact ⟨_, rfl, hnone⟩
  | _ => exact ⟨_, rfl, hnone⟩

/-- A requested relation contributes the same entry under either policy, the one with more below
it than the other. -/
theorem alike_relationContribution (hslots : x.registry.SlotsApartThroughout) {name : String}
    {t : OutputType} (ht : x.registry.describe name = .ok (some t)) {f : FieldDescriptor}
    (hf : f ∈ t.fields) {r : RelationDescriptor} (hkind : f.kind = .relation r)
    (arguments : Arguments) {inner : List FieldNode}
    (below : ∀ target,
      x.registry.describe (itemType (x.registry.envelope? f.type.namedType) f.type.namedType) =
        .ok (some target) →
      OutcomesAlike ForcedBeyond
        ((x.withPolicy .currentLevel).projectType target
          (itemNodes (x.registry.envelope? f.type.namedType) inner))
        ((x.withPolicy .eagerLoadRelations).projectType target
          (itemNodes (x.registry.envelope? f.type.namedType) inner))) :
    OutcomesAlike Contribution.ForcedBeyond
      ((x.withPolicy .currentLevel).relationContribution t f r arguments inner)
      ((x.withPolicy .eagerLoadRelations).relationContribution t f r arguments inner) := by
  simp only [relationContribution, registry_withPolicy, Registry.envelope?_withPolicy,
    Registry.expect_withPolicy]
  cases checkEnvelope (x.registry.envelope? f.type.namedType) f.type.namedType inner with
  | error e => exact .error e
  | ok _ =>
    cases hexpect : x.registry.expect
        (itemType (x.registry.envelope? f.type.namedType) f.type.namedType) with
    | error e => exact .error _
    | ok target =>
      have htarget := Registry.expect_eq_ok_iff.1 hexpect
      rcases (below target htarget).exists_eq with
        ⟨e, hasked, hloaded⟩ | ⟨asked, loaded, hasked, hloaded, hbeyond⟩
      · simp only [hasked, hloaded]
        exact .error e
      · -- The foreign key is an entry that is read of the related rows, so it lies in none of their
        -- slots.
        have hunread : (loaded.addColumn (target.qualify r.foreignKey)).SlotsUnread :=
          (slotsUnread_of_projectType (x := x.withPolicy .eagerLoadRelations)
            hslots.withPolicy htarget hloaded).2 _ (.foreignKey ht hf hkind htarget)
        have hadded := hbeyond.addColumn (target.qualify r.foreignKey)
        obtain ⟨kept, hkept⟩ := hadded.relations
        simp only [hasked, hloaded]
        exact .ok ⟨List.Subset.refl _, rfl, _, .keep hadded.table hadded.columns
          hadded.expressions hunread hkept .nil⟩

/-- Every field contributes the same under either policy, or more where relations are forced. -/
lemma alike_contribution (hx : x.registry.TargetsDescribed)
    (hslots : x.registry.SlotsApartThroughout) {name : String} {t : OutputType}
    (ht : x.registry.describe name = .ok (some t)) {f : FieldDescriptor} (hf : f ∈ t.fields)
    {nodes : List FieldNode}
    (below : ∀ name target inner, x.registry.describe name = .ok (some target) →
      depths inner < depths nodes → OutcomesAlike ForcedBeyond
        ((x.withPolicy .currentLevel).projectType target inner)
        ((x.withPolicy .eagerLoadRelations).projectType target inner)) :
    OutcomesAlike Contribution.ForcedBeyond
      ((x.withPolicy .currentLevel).contribution t nodes f)
      ((x.withPolicy .eagerLoadRelations).contribution t nodes f) := by
  refine OutcomesAlike.map (R := Contribution.ForcedBeyond) ?_
    fun c d hcd => hcd.behind (alwaysColumns t f)
  rw [ownContribution, ownContribution]
  -- The policy is asked about a field that is not requested; a requested one differs further down
  -- at most.
  cases hrequested : requested nodes f.name with
  | nil =>
    obtain ⟨c, hc, hbeyond⟩ := exists_forcedContribution_eagerLoadRelations hx ht hf
    rw [forcedContribution_currentLevel, hc]
    exact .ok hbeyond
  | cons first rest =>
    simp only [requestedContribution, services_withPolicy, expressionText?_withPolicy]
    by_cases hallows : f.allows first.arguments x.services = true
    · simp only [hallows, if_true]
      cases hkind : f.kind with
      | column column => exact .ok (.of_relations_eq_nil rfl)
      | computed outputAlias e => exact .ok (.of_relations_eq_nil rfl)
      | relation r =>
        refine alike_relationContribution hslots ht hf hkind first.arguments ?_
        intro target htarget
        have hsubset : first :: rest ⊆ nodes := hrequested ▸ requested_subset nodes f.name
        exact below _ target _ htarget (Nat.lt_of_le_of_lt (depths_itemNodes_le _ _)
          (depths_childrenOf_lt hsubset (List.cons_ne_nil first rest)))
      | notSelectable => exact .ok (.of_relations_eq_nil rfl)
    · simp only [if_neg hallows]
      exact .ok (.of_relations_eq_nil rfl)

/-! ## Projections under either policy -/

/-- A selection on a type has a projection under both policies or under none, and the one that
forces relations has more. -/
theorem alike_projectType (hx : x.registry.TargetsDescribed)
    (hslots : x.registry.SlotsApartThroughout) {name : String} {t : OutputType}
    (ht : x.registry.describe name = .ok (some t)) (nodes : List FieldNode) :
    OutcomesAlike ForcedBeyond ((x.withPolicy .currentLevel).projectType t nodes)
      ((x.withPolicy .eagerLoadRelations).projectType t nodes) := by
  induction hdepth : depths nodes using Nat.strongRecOn generalizing name t nodes with
  | _ n ih =>
  subst hdepth
  rw [projectType, projectType]
  cases t.checkFields nodes [] with
  | error e => exact .error e
  | ok _ =>
    refine OutcomesAlike.foldlM (fun f hf p q hpq => ?_) (.refl_ofTable t.table)
    rw [addField_eq, addField_eq]
    refine (alike_contribution hx hslots ht hf ?_).map fun c d hcd => hpq.extend hcd
    exact fun name target inner htarget hdepth => ih _ hdepth htarget inner rfl

/-- The same for a selection on a type or on an envelope of one. -/
theorem alike_project (hx : x.registry.TargetsDescribed)
    (hslots : x.registry.SlotsApartThroughout) (type : String) (nodes : List FieldNode) :
    OutcomesAlike ForcedBeyond ((x.withPolicy .currentLevel).project type nodes)
      ((x.withPolicy .eagerLoadRelations).project type nodes) := by
  simp only [project, registry_withPolicy, Registry.envelope?_withPolicy,
    Registry.describe_withPolicy]
  cases checkEnvelope (x.registry.envelope? type) type nodes with
  | error e => exact .error e
  | ok _ =>
    cases hdescribed : x.registry.describe (itemType (x.registry.envelope? type) type) with
    | error e => exact .error _
    | ok described =>
      cases described with
      | none => exact .ok (.refl_ofTable none)
      | some t => exact alike_projectType hx hslots hdescribed _

end Projector

end GraphProjection
