import GraphProjection.Stitching
import Mathlib.Data.List.Forall2

/-!
# One relation after the other

What loading relations does is read off one relation at a time: `loadAll_cons` says what the first
of them fetches, attaches and leaves to the rest, or how it fails.

From that step follows which entries of a row loading leaves alone (`loadAll_frame`): all but those
under the names of the relations.  And it follows what one relation among others comes to
(`loadAll_split`).
-/

namespace GraphProjection

/-! ## Steps that succeed -/

namespace Traced

variable {α β : Type}

lemma outcome_andThen_eq_ok_iff {t : Traced α} {next : α → Traced β} {b : β} :
    (t.andThen next).outcome = .ok b ↔
      ∃ a, t.outcome = .ok a ∧ (next a).outcome = .ok b := by
  obtain ⟨calls, outcome⟩ := t
  cases outcome with
  | error e => simp [andThen]
  | ok a => simp [andThen]

lemma outcome_andThen_of_ok {t : Traced α} {next : α → Traced β} {a : α}
    (h : t.outcome = .ok a) : (t.andThen next).outcome = (next a).outcome := by
  rw [andThen, h]

lemma calls_andThen_of_ok {t : Traced α} {next : α → Traced β} {a : α}
    (h : t.outcome = .ok a) : (t.andThen next).calls = t.calls ++ (next a).calls := by
  rw [andThen, h]

lemma calls_andThen_of_nil {t : Traced α} {next : α → Traced β} (h : ∀ a, (next a).calls = []) :
    (t.andThen next).calls = t.calls := by
  rw [andThen]
  cases t.outcome with
  | error e => rfl
  | ok a =>
    show t.calls ++ (next a).calls = t.calls
    rw [h, List.append_nil]

end Traced

lemma Storage.outcome_traceFetch_eq_ok_iff {s : Storage} {query : SelectQuery}
    {rows : List Row} :
    (s.traceFetch query).outcome = .ok rows ↔ s.fetch query = .ok rows := by
  rw [traceFetch]
  cases s.fetch query with
  | error e => simp [answered]
  | ok fetched => simp [answered]

namespace Stitching

/-- The relations that hang on a query are those that are loaded for its rows. -/
lemma loadQuery_eq (s : Storage) (defaultPerPage : Nat) (query : SelectQuery)
    (projection : Option Projection) (rows : List Row) :
    loadQuery s defaultPerPage query projection rows =
      loadAll s defaultPerPage query.eagerLoads projection rows := by
  cases query
  rw [loadQuery]

/-- What the first of some relations does: its rows are fetched for the keys of the parents,
completed, and attached; the other relations are loaded for what comes out. -/
theorem loadAll_cons {s : Storage} {defaultPerPage : Nat} {target : RelationTarget}
    {query : SelectQuery} {rest : List (RelationTarget × SelectQuery)}
    {projection : Option Projection} {rows done : List Row}
    (h : (loadAll s defaultPerPage ((target, query) :: rest) projection rows).outcome =
      .ok done) :
    ∃ fetched related page,
      s.fetch (relatedQuery target query rows) = .ok fetched ∧
      (loadAll s defaultPerPage query.eagerLoads
        ((projection.bind (·.relation? target.field)).map (·.2)) fetched).outcome =
          .ok related ∧
      relationPage ((projection.bind (·.relation? target.field)).map (·.1)) defaultPerPage =
        .ok page ∧
      (loadAll s defaultPerPage rest projection
        (rows.map (attach target page related))).outcome = .ok done ∧
      (loadAll s defaultPerPage ((target, query) :: rest) projection rows).calls =
        .fetch (relatedQuery target query rows) ::
          ((loadAll s defaultPerPage query.eagerLoads
            ((projection.bind (·.relation? target.field)).map (·.2)) fetched).calls ++
          (loadAll s defaultPerPage rest projection
            (rows.map (attach target page related))).calls) := by
  rw [loadAll] at h ⊢
  simp only [loadQuery_eq] at h ⊢
  obtain ⟨fetched, hfetched, h⟩ := Traced.outcome_andThen_eq_ok_iff.1 h
  obtain ⟨related, hrelated, h⟩ := Traced.outcome_andThen_eq_ok_iff.1 h
  rw [Traced.calls_andThen_of_ok hfetched, Traced.calls_andThen_of_ok hrelated]
  cases hpage : relationPage
      ((projection.bind (·.relation? target.field)).map (·.1)) defaultPerPage with
  | error e =>
    rw [hpage] at h
    cases h
  | ok page =>
    rw [hpage] at h
    exact ⟨fetched, related, page, Storage.outcome_traceFetch_eq_ok_iff.1 hfetched, hrelated,
      rfl, h, rfl⟩

/-- A relation whose rows are fetched, completed and paged leaves the outcome to the others. -/
lemma outcome_loadAll_cons {s : Storage} {defaultPerPage : Nat} {target : RelationTarget}
    {query : SelectQuery} {rest : List (RelationTarget × SelectQuery)}
    {projection : Option Projection} {rows fetched related : List Row}
    {page : Option PageRequest} (hfetched : s.fetch (relatedQuery target query rows) = .ok fetched)
    (hrelated : (loadAll s defaultPerPage query.eagerLoads
      ((projection.bind (·.relation? target.field)).map (·.2)) fetched).outcome = .ok related)
    (hpage : relationPage ((projection.bind (·.relation? target.field)).map (·.1))
      defaultPerPage = .ok page) :
    (loadAll s defaultPerPage ((target, query) :: rest) projection rows).outcome =
      (loadAll s defaultPerPage rest projection
        (rows.map (attach target page related))).outcome := by
  rw [← Storage.outcome_traceFetch_eq_ok_iff] at hfetched
  rw [loadAll]
  simp only [loadQuery_eq, Traced.outcome_andThen_of_ok hfetched,
    Traced.outcome_andThen_of_ok hrelated, hpage]

lemma get?_attach_self (target : RelationTarget) (page : Option PageRequest)
    (related : List Row) (row : Row) :
    Entries.get? (attach target page related row) target.field =
      some (attachedValue target page (matching target related row)) :=
  Entries.get?_put_self row target.field _

lemma get?_attach_of_ne {target : RelationTarget} {name : String}
    (h : target.field ≠ name) (page : Option PageRequest) (related : List Row) (row : Row) :
    Entries.get? (attach target page related row) name = row.get? name :=
  Entries.get?_put_of_ne row _ h

/-- Loading leaves every entry alone that is not under the name of a relation. -/
theorem loadAll_frame {s : Storage} {defaultPerPage : Nat}
    {loads : List (RelationTarget × SelectQuery)} {projection : Option Projection}
    {rows done : List Row}
    (h : (loadAll s defaultPerPage loads projection rows).outcome = .ok done) :
    List.Forall₂ (fun row row' => ∀ name, (∀ load ∈ loads, load.1.field ≠ name) →
      Entries.get? row' name = Entries.get? row name) rows done := by
  induction loads generalizing rows with
  | nil =>
    cases h
    exact List.forall₂_same.2 fun row _ name _ => rfl
  | cons load rest ih =>
    obtain ⟨fetched, related, page, -, -, -, hrest, -⟩ := loadAll_cons h
    have hframe := List.forall₂_map_left_iff.1 (ih hrest)
    refine hframe.imp fun row row' hrow name hname => ?_
    rw [hrow name fun other hother => hname other (List.mem_cons_of_mem _ hother)]
    exact get?_attach_of_ne (hname load List.mem_cons_self) page related row

/-- What one relation among others comes to: its rows are fetched for the parents as the relations
before it left them, and what is attached stays if no relation behind it has the same name. -/
theorem loadAll_split {s : Storage} {defaultPerPage : Nat} {target : RelationTarget}
    {query : SelectQuery} {before after : List (RelationTarget × SelectQuery)}
    {projection : Option Projection} {rows done : List Row}
    (h : (loadAll s defaultPerPage (before ++ (target, query) :: after) projection rows).outcome =
      .ok done) (hafter : ∀ load ∈ after, load.1.field ≠ target.field) :
    ∃ parents fetched related page,
      (loadAll s defaultPerPage before projection rows).outcome = .ok parents ∧
      s.fetch (relatedQuery target query parents) = .ok fetched ∧
      (loadAll s defaultPerPage query.eagerLoads
        ((projection.bind (·.relation? target.field)).map (·.2)) fetched).outcome =
          .ok related ∧
      relationPage ((projection.bind (·.relation? target.field)).map (·.1)) defaultPerPage =
        .ok page ∧
      List.Forall₂ (fun parent row => Entries.get? row target.field =
        some (attachedValue target page (matching target related parent))) parents done := by
  -- The relations in front are loaded first, so the induction goes over them.
  induction before generalizing rows with
  | nil =>
    obtain ⟨fetched, related, page, hfetched, hrelated, hpage, hrest, -⟩ := loadAll_cons h
    have hframe := List.forall₂_map_left_iff.1 (loadAll_frame hrest)
    refine ⟨rows, fetched, related, page, rfl, hfetched, hrelated, hpage, ?_⟩
    refine hframe.imp fun parent row hrow => ?_
    rw [hrow target.field hafter, get?_attach_self]
  | cons load before ih =>
    obtain ⟨fetched, related, page, hfetched, hrelated, hpage, hrest, -⟩ := loadAll_cons h
    rw [outcome_loadAll_cons hfetched hrelated hpage]
    exact ih hrest

end Stitching

end GraphProjection
