import GraphProjection.Proofs.Loading
import GraphProjection.Proofs.Narrowing.Fetching

/-!
# Loading relations for narrow and wide rows

Rows that are alike have the same keys, so the same related rows are fetched for them, narrow and
wide; these are completed alike, matched alike, and attached as values that agree.  All of that
goes down the projection: `Projection.Loadable` says at every depth that the keys are read and that
no two relations share a slot, and `alike_loadAll` is by induction on it.
-/

namespace GraphProjection

open Stitching

/-- A projection holds an entry, and it is no slot of a relation. -/
def Projection.HoldsApart (p : Projection) (name : String) : Prop :=
  p.Holds name ∧ p.relation? name = none

lemma Projection.HoldsApart.reads {p : Projection} {name : String} (h : p.HoldsApart name) :
    p.Reads name :=
  ⟨h.1.keeps, h.2⟩

/-- The relations of a projection can be loaded from what is fetched: they have slots of their
own, the keys at both ends are held and are no slots, and no constraint registers further
relations. -/
inductive Projection.Loadable : Projection → Prop
  | intro {p : Projection} (distinct : (p.relations.map (·.1.target.field)).Nodup)
      (localKey : ∀ relation ∈ p.relations, p.HoldsApart relation.1.target.localKey)
      (foreignKey : ∀ relation ∈ p.relations,
        relation.2.HoldsApart relation.1.target.foreignKey)
      (quiet : ∀ relation ∈ p.relations, ∀ e ∈ relation.1.constraintEdits, e.isQuiet = true)
      (below : ∀ relation ∈ p.relations, relation.2.Loadable) : p.Loadable

/-- Two rows agree on a projection. -/
def RowsAgree (p : Projection) (a b : Row) : Prop := p.Agree false (.object a) (.object b)

lemma RowsAgree.get?_eq {p : Projection} {a b : Row} (h : RowsAgree p a b) {name : String}
    (hreads : p.Reads name) : a.get? name = b.get? name := by
  cases h with
  | same => rfl
  | row entries _ _ => exact entries name hreads

/-! ## Values that are attached -/

lemma agree_array {p : Projection} {paged : Bool} {as bs : List Row}
    (h : List.Forall₂ (fun a b => p.Agree paged (.object a) (.object b)) as bs) :
    p.Agree paged (.array (as.map .object)) (.array (bs.map .object)) := by
  refine .items (by simp [h.length_eq]) fun n v w hv hw => ?_
  rw [List.getElem?_map, Option.map_eq_some_iff] at hv hw
  obtain ⟨a, ha, rfl⟩ := hv
  obtain ⟨b, hb, rfl⟩ := hw
  induction h generalizing n with
  | nil => cases ha
  | cons hab _ ih =>
    cases n with
    | zero =>
      cases ha
      cases hb
      exact hab
    | succ n => exact ih n ha hb

lemma agree_page {p : Projection} {a b : Value} (h : p.Agree false a b)
    (others : List (String × Value)) :
    p.Agree true (.object (("data", a) :: others)) (.object (("data", b) :: others)) := by
  refine .page (fun name hname => ?_) rfl fun v w hv hw => ?_
  · rw [Entries.get?, Entries.get?, if_neg hname.symm, if_neg hname.symm]
  · rw [Entries.get?, if_pos rfl] at hv hw
    cases hv
    cases hw
    exact h

/-- Rows that agree make envelopes that agree. -/
lemma agree_envelope {p : Projection} {as bs : List Row}
    (h : List.Forall₂ (RowsAgree p) as bs) (page : PageRequest) (total : Option Nat) :
    p.Agree true (page.envelope as total) (page.envelope bs total) := by
  have hlength : as.length = bs.length := h.length_eq
  have hmore : page.hasMore as total = page.hasMore bs total := by
    rw [PageRequest.hasMore, PageRequest.hasMore, hlength]
  have htake := List.forall₂_take page.perPage h
  have hitems : (as.take page.perPage).length = (bs.take page.perPage).length :=
    htake.length_eq
  rw [PageRequest.envelope, PageRequest.envelope, hmore, hitems]
  cases page.kind <;> exact agree_page (agree_array htake) _

lemma agree_attachedValue {p : Projection} {as bs : List Row}
    (h : List.Forall₂ (RowsAgree p) as bs) (target : RelationTarget)
    (page : Option PageRequest) :
    p.Agree page.isSome (attachedValue target page as) (attachedValue target page bs) := by
  cases page with
  | some page =>
    rw [attachedValue, attachedValue, h.length_eq]
    exact agree_envelope (List.forall₂_take _ (List.forall₂_drop _ h)) page _
  | none =>
    rw [attachedValue, attachedValue]
    split
    · exact agree_array h
    · cases h with
      | nil => exact .same p _ _
      | cons hab _ => exact hab

/-! ## Keys of rows that are alike -/

lemma keyText_congr {column : String} {a b : Row} (h : a.get? column = b.get? column) :
    keyText column a = keyText column b := by
  rw [keyText, keyText, h]

lemma keys_congr {column : String} {as bs : List Row}
    (h : List.Forall₂ (fun a b => Entries.get? a column = Entries.get? b column) as bs) :
    keys column as = keys column bs := by
  have hvalues : as.filterMap (Entries.get? · column) = bs.filterMap (Entries.get? · column) := by
    induction h with
    | nil => rfl
    | cons hab _ ih => rw [List.filterMap_cons, List.filterMap_cons, hab, ih]
  rw [keys, keys, hvalues]

/-- The same related rows match rows with the same key, where these rows kept their own. -/
lemma forall₂_matching {R : Row → Row → Prop} {target : RelationTarget} {as bs : List Row}
    {a b : Row} (h : List.Forall₂ R as bs)
    (hforeign : ∀ a b, R a b → a.get? target.foreignKey = b.get? target.foreignKey)
    (hlocal : a.get? target.localKey = b.get? target.localKey) :
    List.Forall₂ R (matching target as a) (matching target bs b) := by
  rw [matching, matching, keyText_congr hlocal]
  induction h with
  | nil => exact .nil
  | cons hab _ ih =>
    rw [List.filter_cons, List.filter_cons, keyText_congr (hforeign _ _ hab)]
    split
    · exact .cons hab ih
    · exact ih

/-! ## Rows on the way -/

/-- Two rows for which some relations have been loaded: they are alike, and what is in the slots of
those relations agrees. -/
structure Partway (p : Projection) (loaded : List (RelationEntry × Projection)) (a b : Row) :
    Prop where
  entries : RowsAlike p a b
  slots : ∀ relation ∈ loaded, ∃ v w,
    a.get? relation.1.target.field = some v ∧ b.get? relation.1.target.field = some w ∧
      relation.2.Agree relation.1.page.isSome v w

lemma Partway.start {p : Projection} {a b : Row} (h : RowsAlike p a b) : Partway p [] a b :=
  ⟨h, fun _ hrelation => absurd hrelation List.not_mem_nil⟩

lemma Partway.put {p : Projection} {loaded : List (RelationEntry × Projection)} {a b : Row}
    (h : Partway p loaded a b) {relation : RelationEntry × Projection}
    (hslot : p.relation? relation.1.target.field = some relation)
    (hfresh : ∀ other ∈ loaded, other.1.target.field ≠ relation.1.target.field) {v w : Value}
    (hvw : relation.2.Agree relation.1.page.isSome v w) :
    Partway p (loaded ++ [relation]) (a.put relation.1.target.field v)
      (b.put relation.1.target.field w) where
  entries := by
    intro name hreads
    have hne : relation.1.target.field ≠ name := by
      rintro rfl
      rw [hreads.2] at hslot
      cases hslot
    rw [Entries.get?_put_of_ne _ _ hne, Entries.get?_put_of_ne _ _ hne]
    exact h.entries name hreads
  slots := by
    intro other hother
    rcases List.mem_append.1 hother with hother | hother
    · have hne := (hfresh other hother).symm
      rw [Entries.get?_put_of_ne _ _ hne, Entries.get?_put_of_ne _ _ hne]
      exact h.slots other hother
    · rw [List.mem_singleton.1 hother]
      exact ⟨v, w, Entries.get?_put_self _ _ _, Entries.get?_put_self _ _ _, hvw⟩

/-- Rows for which all relations have been loaded agree. -/
lemma Partway.rowsAgree {p : Projection} {a b : Row} (h : Partway p p.relations a b) :
    RowsAgree p a b := by
  refine .row h.entries (fun name hslot => ?_) fun name entry child v w hfound hv hw => ?_
  · obtain ⟨relation, hfound⟩ := Option.isSome_iff_exists.1 hslot
    obtain ⟨hmem, rfl⟩ := Projection.mem_of_relation? hfound
    obtain ⟨v, w, hv, hw, -⟩ := h.slots relation hmem
    rw [hv, hw]
    rfl
  · obtain ⟨hmem, rfl⟩ := Projection.mem_of_relation? hfound
    obtain ⟨v', w', hv', hw', hagree⟩ := h.slots (entry, child) hmem
    rw [hv] at hv'
    rw [hw] at hw'
    cases hv'
    cases hw'
    exact hagree

/-- Attaching related rows that agree brings rows further on the way. -/
lemma forall₂_partway_attach {p : Projection} {loaded : List (RelationEntry × Projection)}
    {relation : RelationEntry × Projection}
    (hslot : p.relation? relation.1.target.field = some relation)
    (hfresh : ∀ other ∈ loaded, other.1.target.field ≠ relation.1.target.field)
    (hlocal : p.HoldsApart relation.1.target.localKey)
    (hforeign : relation.2.HoldsApart relation.1.target.foreignKey)
    {page : Option PageRequest} (hpage : page.isSome = relation.1.page.isSome)
    {related related' : List Row} (hrelated : List.Forall₂ (RowsAgree relation.2) related related')
    {rows rows' : List Row} (hrows : List.Forall₂ (Partway p loaded) rows rows') :
    List.Forall₂ (Partway p (loaded ++ [relation]))
      (rows.map (attach relation.1.target page related))
      (rows'.map (attach relation.1.target page related')) := by
  rw [List.forall₂_map_left_iff, List.forall₂_map_right_iff]
  refine hrows.imp fun a b hab => ?_
  have hmatching : List.Forall₂ (RowsAgree relation.2)
      (matching relation.1.target related a) (matching relation.1.target related' b) := by
    apply forall₂_matching hrelated
    · exact fun _ _ hagree => hagree.get?_eq hforeign.reads
    · exact hab.entries _ hlocal.reads
  have hvalues := agree_attachedValue hmatching relation.1.target page
  rw [hpage] at hvalues
  exact hab.put hslot hfresh hvalues

/-! ## Loading relations -/

lemma isSome_of_relationPage {entry : RelationEntry} {defaultPerPage : Nat}
    {page : Option PageRequest} (h : relationPage (some entry) defaultPerPage = .ok page) :
    page.isSome = entry.page.isSome := by
  rw [relationPage] at h
  cases hpage : entry.page with
  | none =>
    simp only [Option.bind_some, hpage, Option.map_none] at h
    cases h
    rfl
  | some kind =>
    simp only [Option.bind_some, hpage, Option.map_some] at h
    cases hrequest : PageRequest.ofArguments kind entry.arguments defaultPerPage with
    | error e =>
      rw [hrequest] at h
      cases h
    | ok request =>
      rw [hrequest] at h
      cases h
      rfl

variable {s : Storage} {whole : WholeRows}
  {computed : Row → List (String × String) → String → Value} {defaultPerPage : Nat}

/-- Loading the relations that are left for narrow and wide rows: the related rows are those of a
narrow and a wide query, so they are alike, and by `ih` they agree once they are completed. -/
theorem alike_loadRest (hs : s.Narrows whole computed) {p : Projection} (hp : p.Loadable)
    (ih : ∀ relation ∈ p.relations, ∀ rows rows',
      List.Forall₂ (RowsAlike relation.2) rows rows' →
      Traced.Alike (List.Forall₂ (RowsAgree relation.2))
        (loadAll s defaultPerPage relation.2.loads (some relation.2) rows)
        (loadAll s defaultPerPage relation.2.widened.loads (some relation.2.widened) rows'))
    {loaded rest : List (RelationEntry × Projection)} (hsplit : p.relations = loaded ++ rest)
    {rows rows' : List Row} (hrows : List.Forall₂ (Partway p loaded) rows rows') :
    Traced.Alike (List.Forall₂ (Partway p p.relations))
      (loadAll s defaultPerPage
        (rest.map fun relation => (relation.1.target, relation.1.query relation.2)) (some p) rows)
      (loadAll s defaultPerPage
        (rest.map fun relation => (relation.1.target, relation.1.query relation.2.widened))
        (some p.widened) rows') := by
  -- The invariant is that the rows agree on what the projection reads, but for the slots that have
  -- been filled, where they agree on what the relations read.
  induction rest generalizing loaded rows rows' with
  | nil =>
    rw [List.append_nil] at hsplit
    rw [hsplit]
    exact .pure hrows
  | cons relation rest ihrest =>
    cases hp with
    | intro distinct localKey foreignKey quiet below =>
    have hmem : relation ∈ p.relations := hsplit ▸ List.mem_append_right _ List.mem_cons_self
    have hslot := Projection.relation?_of_mem distinct hmem
    have hnarrowed := Projection.narrowed_query relation.2 (quiet relation hmem)
    have hkeys : keys relation.1.target.localKey rows =
        keys relation.1.target.localKey rows' :=
      keys_congr (hrows.imp fun a b hab => hab.entries _ (localKey relation hmem).reads)
    rw [List.map_cons, List.map_cons, loadAll, loadAll]
    simp only [loadQuery_eq, Option.bind_some, Projection.relation?_widened, hslot,
      Option.map_some, hnarrowed.loads, hnarrowed.wideLoads]
    refine Traced.Alike.andThen (R := List.Forall₂ (RowsAlike relation.2)) ?_
      fun fetched fetched' hfetched => ?_
    · rw [relatedQuery, relatedQuery, hkeys, hnarrowed.table]
      exact alike_fetch hs (hnarrowed.addCondition _)
    refine (ih relation hmem fetched fetched' hfetched).andThen fun related related' hrelated => ?_
    cases hpage : relationPage (some relation.1) defaultPerPage with
    | error e => exact .fail _ _
    | ok page =>
      have hfields : ((loaded ++ relation :: rest).map (·.1.target.field)).Nodup :=
        hsplit ▸ distinct
      have hfresh : ∀ other ∈ loaded, other.1.target.field ≠ relation.1.target.field := by
        intro other hother heq
        rw [List.map_append, List.map_cons] at hfields
        exact (List.nodup_append.1 hfields).2.2 _ (List.mem_map_of_mem hother) _
          List.mem_cons_self heq
      have hsplit' : p.relations = (loaded ++ [relation]) ++ rest := by
        rw [hsplit, List.append_assoc, List.singleton_append]
      exact ihrest hsplit' (forall₂_partway_attach hslot hfresh (localKey relation hmem)
        (foreignKey relation hmem) (isSome_of_relationPage hpage) hrelated hrows)

/-- **Relations of narrow and wide rows are loaded alike**: with the same failure, or with rows that
agree on the projection. -/
theorem alike_loadAll (hs : s.Narrows whole computed) {p : Projection} (hp : p.Loadable)
    {rows rows' : List Row} (hrows : List.Forall₂ (RowsAlike p) rows rows') :
    Traced.Alike (List.Forall₂ (RowsAgree p))
      (loadAll s defaultPerPage p.loads (some p) rows)
      (loadAll s defaultPerPage p.widened.loads (some p.widened) rows') := by
  induction hp generalizing rows rows' with
  | @intro p distinct localKey foreignKey quiet below ih =>
    have hp : p.Loadable := .intro distinct localKey foreignKey quiet below
    have hstart : List.Forall₂ (Partway p []) rows rows' := hrows.imp fun a b => .start
    rw [Projection.loads, Projection.loads_widened]
    have hall : Traced.Alike (List.Forall₂ (Partway p p.relations))
        (loadAll s defaultPerPage
          (p.relations.map fun relation => (relation.1.target, relation.1.query relation.2))
          (some p) rows)
        (loadAll s defaultPerPage
          (p.relations.map fun relation => (relation.1.target, relation.1.query relation.2.widened))
          (some p.widened) rows') :=
      alike_loadRest hs hp (fun relation hmem rows rows' h => ih relation hmem h)
        (List.nil_append _).symm hstart
    exact hall.imp fun done done' h => h.imp fun a b hab => hab.rowsAgree

end GraphProjection
