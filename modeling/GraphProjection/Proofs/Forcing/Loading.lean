import GraphProjection.Proofs.Forcing.Projections

/-!
# Loading forced relations

Two queries that differ in nothing but the relations that hang on them bring rows with the same
entries.  For such rows the relations are loaded, of the one without forced relations and of the
other with forced ones among them, and in the end the rows agree on what was requested
(`alike_loadAmong`, by induction on `ForcedAmong`).

A relation that is kept takes a step on both sides, just as narrow and wide rows do.  A forced one
takes a step on one side only: it is fetched, having no relations of its own it is complete, its
first page can always be told, and it is attached in a slot that nothing reads.
-/

namespace GraphProjection

open Stitching

/-! ## Queries that differ in their relations -/

namespace SelectQuery

/-- A query with other relations hanging on it. -/
def withLoads (q : SelectQuery) (loads : List (RelationTarget × SelectQuery)) : SelectQuery :=
  { q with eagerLoads := loads }

/-- Whoever registers no relation does the same to a query whatever hangs on it. -/
lemma editAll_withLoads {edits : List Edit} (h : ∀ e ∈ edits, e.isQuiet = true)
    (q : SelectQuery) (loads : List (RelationTarget × SelectQuery)) :
    (q.withLoads loads).editAll edits = (q.editAll edits).withLoads loads := by
  induction edits generalizing q with
  | nil => rw [editAll, editAll]
  | cons e rest ih =>
    have hfirst : (q.withLoads loads).edit e = (q.edit e).withLoads loads := by
      cases e with
      | load target below => cases h _ List.mem_cons_self
      | _ => rw [edit, edit]; rfl
    rw [editAll, editAll, hfirst, ih fun other hother => h other (List.mem_cons_of_mem _ hother)]

end SelectQuery

namespace Projection

variable {asked loaded : Projection}

/-- Widened projections with the same expressions do the same to a query but for the relations. -/
lemma editAll_edits_widened (h : loaded.expressions = asked.expressions) (table : String) :
    (SelectQuery.all table).editAll loaded.widened.edits =
      ((SelectQuery.all table).editAll asked.widened.edits).withLoads loaded.widened.loads := by
  rw [editAll_edits, editAll_edits, columns_widened, columns_widened, expressions_widened,
    expressions_widened, h]
  rfl

lemma query_widened (h : loaded.expressions = asked.expressions) {entry : RelationEntry}
    (hquiet : ∀ e ∈ entry.constraintEdits, e.isQuiet = true) :
    entry.query loaded.widened = (entry.query asked.widened).withLoads loaded.widened.loads := by
  rw [RelationEntry.query, RelationEntry.query, SelectQuery.editAll_append,
    SelectQuery.editAll_append, editAll_edits_widened h, SelectQuery.editAll_withLoads hquiet]

end Projection

/-- Two rows have the same value under every name. -/
def SameEntries (a b : Row) : Prop := ∀ name, a.get? name = b.get? name

section Fetching

variable {s : Storage} {whole : WholeRows}
  {computed : Row → List (String × String) → String → Value}

lemma SameEntries.of_shows {q : SelectQuery} {loads : List (RelationTarget × SelectQuery)}
    {stored a b : Row} (ha : Shows computed q stored a)
    (hb : Shows computed (q.withLoads loads) stored b) : SameEntries a b := by
  intro name
  by_cases halias : name ∈ q.expressions.map (·.2)
  · rw [ha.aliases name halias, hb.aliases name halias]
    rfl
  · by_cases hselects : q.Selects name
    · rw [ha.columns name halias hselects, hb.columns name halias hselects]
    · rw [ha.others name halias hselects, hb.others name halias hselects]

/-- Queries that differ in their relations bring rows with the same entries. -/
lemma alike_fetch_withLoads (hs : s.Narrows whole computed) (q : SelectQuery)
    (loads : List (RelationTarget × SelectQuery)) :
    Traced.Alike (List.Forall₂ SameEntries) (s.traceFetch q)
      (s.traceFetch (q.withLoads loads)) := by
  have hsame : q.SameRows (q.withLoads loads) := ⟨rfl, rfl, rfl, rfl⟩
  exact alike_fetch_of_shows hs hsame fun _ _ _ => SameEntries.of_shows

end Fetching

/-! ## Projections without their forced relations -/

/-- A projection is what is left of another one without some of its relations: nothing that it
reads lies in a slot of the other, and it holds the keys that the other holds. -/
structure Projection.Prunes (kept loaded : Projection) : Prop where
  loadable : loaded.Loadable
  distinct : (kept.relations.map (·.1.target.field)).Nodup
  unread : ∀ name, kept.Reads name → loaded.relation? name = none
  holdsApart : ∀ name, loaded.HoldsApart name → kept.HoldsApart name

namespace Projection

variable {asked kept : List (RelationEntry × Projection)} {loaded : Projection}

lemma relation?_eq_none_iff {p : Projection} {name : String} :
    p.relation? name = none ↔ name ∉ p.relations.map (·.1.target.field) := by
  rw [relation?, List.find?_eq_none, List.mem_map]
  simp

lemma ForcedAmong.prunes (h : ForcedAmong asked kept loaded.relations)
    (hloadable : loaded.Loadable) (hunread : loaded.SlotsUnread) :
    Prunes (loaded.withRelations kept) loaded := by
  have hslots := h.slots_sublist
  refine ⟨hloadable, ?_, fun name hreads => ?_, fun name hholds => ⟨hholds.1, ?_⟩⟩
  · cases hloadable with
    | intro distinct _ _ _ _ => exact distinct.sublist hslots
  · rw [← Option.not_isSome_iff_eq_none]
    intro hslot
    have hkeeps : loaded.keeps name = true := hreads.1
    rw [hunread name hslot] at hkeeps
    cases hkeeps
  · have hnone := relation?_eq_none_iff.1 hholds.2
    exact relation?_eq_none_iff.2 fun hmem => hnone (hslots.subset hmem)

end Projection

/-! ## Rows on the way -/

/-- What is attached to the second row in a slot that is not read, and was not filled before, leaves
the two rows on their way. -/
theorem Partway.put_right {p : Projection} {done : List (RelationEntry × Projection)} {a b : Row}
    (h : Partway p done a b) {slot : String} (hunread : ¬ p.Reads slot)
    (hfresh : ∀ relation ∈ done, relation.1.target.field ≠ slot) (v : Value) :
    Partway p done a (b.put slot v) where
  entries name hreads := by
    have hne : slot ≠ name := fun heq => hunread (heq ▸ hreads)
    rw [Entries.get?_put_of_ne _ _ hne]
    exact h.entries name hreads
  slots relation hrelation := by
    rw [Entries.get?_put_of_ne _ _ (hfresh relation hrelation).symm]
    exact h.slots relation hrelation

/-- Without arguments the first page is asked for. -/
lemma PageRequest.ofArguments_nil (kind : PageKind) (defaultPerPage : Nat) :
    PageRequest.ofArguments kind [] defaultPerPage = .ok ⟨kind, defaultPerPage, 1, 0⟩ := by
  have hnumbered : ∀ kind, numbered kind defaultPerPage [] = .ok ⟨kind, defaultPerPage, 1, 0⟩ := by
    intro kind
    show (if maxOffset < (1 - 1) * defaultPerPage then
        (.error (.invalidArgument .page) : Except PageError PageRequest)
      else .ok ⟨kind, defaultPerPage, 1, (1 - 1) * defaultPerPage⟩) = _
    simp
  cases kind with
  | offset => exact hnumbered .offset
  | simple => exact hnumbered .simple
  | cursor => rfl

lemma exists_relationPage {entry : RelationEntry} (h : entry.arguments = [])
    (defaultPerPage : Nat) : ∃ page, relationPage (some entry) defaultPerPage = .ok page := by
  rw [relationPage]
  cases hpage : entry.page with
  | none => exact ⟨none, by simp [hpage]⟩
  | some kind =>
    refine ⟨some ⟨kind, defaultPerPage, 1, 0⟩, ?_⟩
    simp only [Option.bind_some, hpage, Option.map_some, h, PageRequest.ofArguments_nil]
    rfl

/-! ## Loading -/

variable {s : Storage} {whole : WholeRows}
  {computed : Row → List (String × String) → String → Value} {defaultPerPage : Nat}

/-- Loading a forced relation does not fail, and leaves the outcome to the relations after it. -/
lemma exists_outcome_loadAll_forced (hfetch : ∀ query, ∃ rows, s.fetch query = .ok rows)
    {entry : RelationEntry} {child p : Projection} (harguments : entry.arguments = [])
    (hbare : child.relations = []) (hquiet : ∀ e ∈ entry.constraintEdits, e.isQuiet = true)
    (hslot : p.relation? entry.target.field = some (entry, child.widened))
    (rest : List (RelationTarget × SelectQuery)) (rows : List Row) :
    ∃ page related, (loadAll s defaultPerPage ((entry.target, entry.query child.widened) :: rest)
        (some p) rows).outcome =
      (loadAll s defaultPerPage rest (some p)
        (rows.map (attach entry.target page related))).outcome := by
  have hloads : (entry.query child.widened).eagerLoads = [] := by
    rw [(Projection.narrowed_query child hquiet).wideLoads, Projection.loads_widened, hbare]
    rfl
  obtain ⟨fetched, hfetched⟩ := hfetch (relatedQuery entry.target (entry.query child.widened) rows)
  obtain ⟨page, hpage⟩ := exists_relationPage harguments defaultPerPage
  refine ⟨page, fetched, outcome_loadAll_cons hfetched ?_ ?_⟩
  · rw [hloads]
    rfl
  · rw [Option.bind_some, hslot]
    exact hpage

/-- Rows on the way of which the first projection prunes the second: where a forced relation is
loaded for the second rows, the others are left to be loaded for both. -/
theorem alike_loadForced (hfetch : ∀ query, ∃ rows, s.fetch query = .ok rows)
    {own loaded : Projection} (hprunes : own.Prunes loaded) {entry : RelationEntry}
    {child : Projection} (hmem : (entry, child) ∈ loaded.relations)
    (harguments : entry.arguments = []) (hbare : child.relations = [])
    {done : List (RelationEntry × Projection)}
    (hfresh : ∀ relation ∈ done, relation.1.target.field ≠ entry.target.field)
    {rows rows' : List Row} (hrows : List.Forall₂ (Partway own done) rows rows')
    {loads rest : List (RelationTarget × SelectQuery)} {S : List Row → List Row → Prop}
    (next : ∀ rows', List.Forall₂ (Partway own done) rows rows' →
      Traced.Alike S (loadAll s defaultPerPage loads (some own.widened) rows)
        (loadAll s defaultPerPage rest (some loaded.widened) rows')) :
    Traced.Alike S (loadAll s defaultPerPage loads (some own.widened) rows)
      (loadAll s defaultPerPage ((entry.target, entry.query child.widened) :: rest)
        (some loaded.widened) rows') := by
  cases hprunes.loadable with
  | intro distinct _ _ quiet _ =>
  have hslot := Projection.relation?_of_mem distinct hmem
  have hwidened : loaded.widened.relation? entry.target.field = some (entry, child.widened) := by
    rw [Projection.relation?_widened, hslot]
    rfl
  obtain ⟨page, related, houtcome⟩ := exists_outcome_loadAll_forced hfetch harguments hbare
    (quiet _ hmem) hwidened rest rows'
  rw [Traced.Alike, houtcome]
  -- The slot that is written is one that the first projection does not read, so its rows stay
  -- partway.
  refine next _ (List.forall₂_map_right_iff.2 (hrows.imp fun a b hab => ?_))
  refine hab.put_right (fun hreads => ?_) hfresh _
  rw [hprunes.unread _ hreads] at hslot
  cases hslot

/-- Where a relation is loaded for both, the related rows have the same entries, so by `below` they
agree once they are completed. -/
theorem alike_loadKept (hs : s.Narrows whole computed) {own loaded : Projection}
    (hprunes : own.Prunes loaded) {entry : RelationEntry} {pruned child : Projection}
    (hinside : pruned.Prunes child) (hexpressions : child.expressions = pruned.expressions)
    (hown : (entry, pruned) ∈ own.relations) (hmem : (entry, child) ∈ loaded.relations)
    (below : ∀ fetched fetched', List.Forall₂ SameEntries fetched fetched' →
      Traced.Alike (List.Forall₂ (RowsAgree pruned))
        (loadAll s defaultPerPage pruned.widened.loads (some pruned.widened) fetched)
        (loadAll s defaultPerPage child.widened.loads (some child.widened) fetched'))
    {done : List (RelationEntry × Projection)}
    (hfresh : ∀ relation ∈ done, relation.1.target.field ≠ entry.target.field)
    {rows rows' : List Row} (hrows : List.Forall₂ (Partway own done) rows rows')
    {loads rest : List (RelationTarget × SelectQuery)} {S : List Row → List Row → Prop}
    (next : ∀ rows rows', List.Forall₂ (Partway own (done ++ [(entry, pruned)])) rows rows' →
      Traced.Alike S (loadAll s defaultPerPage loads (some own.widened) rows)
        (loadAll s defaultPerPage rest (some loaded.widened) rows')) :
    Traced.Alike S
      (loadAll s defaultPerPage ((entry.target, entry.query pruned.widened) :: loads)
        (some own.widened) rows)
      (loadAll s defaultPerPage ((entry.target, entry.query child.widened) :: rest)
        (some loaded.widened) rows') := by
  cases hprunes.loadable with
  | intro distinct localKey foreignKey quiet _ =>
  have hslot := Projection.relation?_of_mem hprunes.distinct hown
  have hslot' := Projection.relation?_of_mem distinct hmem
  have hlocal := hprunes.holdsApart _ (localKey _ hmem)
  have hforeign := hinside.holdsApart _ (foreignKey _ hmem)
  -- Both sides ask for the same rows, for the keys of the parents are read by the first projection.
  have hkeys : keys entry.target.localKey rows = keys entry.target.localKey rows' :=
    keys_congr (hrows.imp fun a b hab => hab.entries _ hlocal.reads)
  have hquery := Projection.query_widened hexpressions (quiet _ hmem)
  have hloads := (Projection.narrowed_query pruned (quiet _ hmem)).wideLoads
  have hloads' := (Projection.narrowed_query child (quiet _ hmem)).wideLoads
  rw [loadAll, loadAll]
  simp only [loadQuery_eq, Option.bind_some, Projection.relation?_widened, hslot, hslot',
    Option.map_some, hloads, hloads']
  refine Traced.Alike.andThen (R := List.Forall₂ SameEntries) ?_
    fun fetched fetched' hfetched => ?_
  · rw [relatedQuery, relatedQuery, hkeys, hquery]
    exact alike_fetch_withLoads hs _ _
  refine (below fetched fetched' hfetched).andThen fun related related' hrelated => ?_
  cases hpage : relationPage (some entry) defaultPerPage with
  | error e => exact .fail _ _
  | ok page =>
    exact next _ _ (forall₂_partway_attach hslot hfresh hlocal hforeign
      (isSome_of_relationPage hpage) hrelated hrows)

/-- A relation has another slot than those before it. -/
lemma Projection.Loadable.slot_notMem {p : Projection} (h : p.Loadable)
    {before rest : List (RelationEntry × Projection)} {relation : RelationEntry × Projection}
    (hp : p.relations = before ++ relation :: rest) :
    relation.1.target.field ∉ before.map (·.1.target.field) := by
  intro hslot
  cases h with
  | intro distinct _ _ _ _ =>
  rw [hp, List.map_append] at distinct
  exact (List.nodup_append.1 distinct).2.2 _ hslot _ List.mem_cons_self rfl

/-- Loading the relations that are left of a projection and of one that prunes it. -/
theorem alike_loadAmong (hs : s.Narrows whole computed)
    (hfetch : ∀ query, ∃ rows, s.fetch query = .ok rows)
    {asked kept all : List (RelationEntry × Projection)}
    (h : Projection.ForcedAmong asked kept all) {own loaded : Projection}
    (hprunes : own.Prunes loaded) {done before : List (RelationEntry × Projection)}
    (hown : own.relations = done ++ kept) (hloaded : loaded.relations = before ++ all)
    (hdone : done.map (·.1.target.field) ⊆ before.map (·.1.target.field)) {rows rows' : List Row}
    (hrows : List.Forall₂ (Partway own done) rows rows') :
    Traced.Alike (List.Forall₂ (Partway own own.relations))
      (loadAll s defaultPerPage
        (kept.map fun relation => (relation.1.target, relation.1.query relation.2.widened))
        (some own.widened) rows)
      (loadAll s defaultPerPage
        (all.map fun relation => (relation.1.target, relation.1.query relation.2.widened))
        (some loaded.widened) rows') := by
  -- The invariant is that the rows agree on what is read but for the slots that are done. A kept
  -- relation is loaded for both and gets done, a forced one for the second rows only.
  induction h generalizing own loaded done before rows rows' with
  | nil =>
    rw [List.append_nil] at hown
    rw [hown]
    exact .pure hrows
  | @keep entry asked child below requested kept all _ _ _ unread inside _ ihinside ih =>
    have hmem : (entry, child) ∈ loaded.relations :=
      hloaded ▸ List.mem_append_right _ List.mem_cons_self
    have hmem' : (entry, child.withRelations below) ∈ own.relations :=
      hown ▸ List.mem_append_right _ List.mem_cons_self
    have hchild : child.Loadable := by
      cases hprunes.loadable with
      | intro _ _ _ _ loadable => exact loadable _ hmem
    have hinside := inside.prunes hchild unread
    have hslot := hprunes.loadable.slot_notMem hloaded
    rw [List.map_cons, List.map_cons]
    refine alike_loadKept hs hprunes hinside rfl hmem' hmem (fun fetched fetched' hfetched => ?_)
      (fun relation hrelation heq => hslot (heq ▸ hdone (List.mem_map_of_mem hrelation))) hrows
      fun rows rows' hrows => ih hprunes (hown.trans (List.append_cons done _ kept))
        (hloaded.trans (List.append_cons before _ all)) ?_ hrows
    · have hstart : List.Forall₂ (Partway (child.withRelations below) []) fetched fetched' :=
        hfetched.imp fun a b hab => .start fun name _ => hab name
      rw [Projection.loads_widened, Projection.loads_widened]
      exact (ihinside hinside (List.nil_append _).symm rfl (List.Subset.refl _) hstart).imp
        fun done done' hdone => hdone.imp fun a b hab => hab.rowsAgree
    · rw [List.map_append, List.map_append]
      exact List.append_subset.2 ⟨List.Subset.trans hdone (List.subset_append_left _ _),
        List.subset_append_right _ _⟩
  | @force entry child requested kept all arguments bare _ ih =>
    have hmem : (entry, child) ∈ loaded.relations :=
      hloaded ▸ List.mem_append_right _ List.mem_cons_self
    have hslot := hprunes.loadable.slot_notMem hloaded
    rw [List.map_cons]
    refine alike_loadForced hfetch hprunes hmem arguments bare
      (fun relation hrelation heq => hslot (heq ▸ hdone (List.mem_map_of_mem hrelation))) hrows
      fun rows' hrows => ih hprunes hown (hloaded.trans (List.append_cons before _ all)) ?_ hrows
    rw [List.map_append]
    exact List.Subset.trans hdone (List.subset_append_left _ _)

/-- **Forced relations are loaded unseen.**  For rows with the same entries, what is requested is
loaded alike whether further relations are forced or not: with the same failure, or with rows that
agree on what was requested. -/
theorem alike_loadAll_of_forcedAmong (hs : s.Narrows whole computed)
    (hfetch : ∀ query, ∃ rows, s.fetch query = .ok rows)
    {asked kept : List (RelationEntry × Projection)} {loaded : Projection}
    (h : Projection.ForcedAmong asked kept loaded.relations) (hloadable : loaded.Loadable)
    (hunread : loaded.SlotsUnread) {rows rows' : List Row}
    (hrows : List.Forall₂ SameEntries rows rows') :
    Traced.Alike (List.Forall₂ (RowsAgree (loaded.withRelations kept)))
      (loadAll s defaultPerPage
        (loaded.withRelations kept).widened.loads
        (some (loaded.withRelations kept).widened) rows)
      (loadAll s defaultPerPage loaded.widened.loads (some loaded.widened) rows') := by
  have hstart : List.Forall₂ (Partway (loaded.withRelations kept) []) rows rows' :=
    hrows.imp fun a b hab => .start fun name _ => hab name
  rw [Projection.loads_widened, Projection.loads_widened]
  exact (alike_loadAmong hs hfetch h (h.prunes hloadable hunread) (List.nil_append _).symm rfl
    (List.Subset.refl _) hstart).imp fun done done' hdone => hdone.imp fun a b hab => hab.rowsAgree

end GraphProjection
