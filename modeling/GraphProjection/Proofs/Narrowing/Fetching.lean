import GraphProjection.Proofs.Entries
import GraphProjection.Proofs.Widening
import GraphProjection.Storage
import Mathlib.Data.List.Forall2

/-!
# Fetching narrow and wide rows

`Storage.Narrows` is what it takes of a storage for the columns of a query to be no more than a
matter of how much of a row is returned: there are rows behind the rows, and a query shows the
selected columns of them and its expressions under their aliases.

From such a storage a narrow and a wide query bring rows that cannot be told apart by reading what
the projection reads (`alike_fetch`), or the same failure.  Whatever is then done with both is
compared outcome by outcome, `Traced.Alike` being that comparison; the calls that are made are not
compared, for they are what narrowing changes.
-/

namespace GraphProjection

/-! ## Outcomes that are alike -/

/-- Two outcomes are the same failure, or values that are related. -/
inductive OutcomesAlike {ε α β : Type} (R : α → β → Prop) : Except ε α → Except ε β → Prop
  | error (e : ε) : OutcomesAlike R (.error e) (.error e)
  | ok {a : α} {b : β} (h : R a b) : OutcomesAlike R (.ok a) (.ok b)

lemma OutcomesAlike.exists_eq {ε α β : Type} {R : α → β → Prop} {outcome : Except ε α}
    {other : Except ε β} (h : OutcomesAlike R outcome other) :
    (∃ e, outcome = .error e ∧ other = .error e) ∨
      ∃ a b, outcome = .ok a ∧ other = .ok b ∧ R a b := by
  cases h with
  | error e => exact .inl ⟨e, rfl, rfl⟩
  | ok hab => exact .inr ⟨_, _, rfl, rfl, hab⟩

namespace Traced

variable {α β γ δ : Type} {R : α → β → Prop} {S : γ → δ → Prop}

/-- Two computations have outcomes that are alike. -/
def Alike (R : α → β → Prop) (t : Traced α) (u : Traced β) : Prop :=
  OutcomesAlike R t.outcome u.outcome

lemma Alike.pure {a : α} {b : β} (h : R a b) : Alike R (.pure a) (.pure b) := .ok h

lemma Alike.fail (R : α → β → Prop) (e : ExecutionError) : Alike R (.fail e) (.fail e) :=
  .error e

lemma Alike.refl (t : Traced α) : Alike (· = ·) t t := by
  obtain ⟨calls, outcome⟩ := t
  cases outcome with
  | error e => exact .error e
  | ok a => exact .ok rfl

lemma Alike.outcome_eq {t u : Traced α} (h : Alike (· = ·) t u) : t.outcome = u.outcome := by
  obtain ⟨calls, outcome⟩ := t
  obtain ⟨calls', outcome'⟩ := u
  cases h with
  | error e => rfl
  | ok hab => exact congrArg Except.ok hab

lemma Alike.imp {R' : α → β → Prop} {t : Traced α} {u : Traced β} (h : Alike R t u)
    (himp : ∀ a b, R a b → R' a b) : Alike R' t u := by
  obtain ⟨calls, outcome⟩ := t
  obtain ⟨calls', outcome'⟩ := u
  cases h with
  | error e => exact .error e
  | ok hab => exact .ok (himp _ _ hab)

lemma Alike.andThen {t : Traced α} {u : Traced β} (h : Alike R t u) {f : α → Traced γ}
    {g : β → Traced δ} (hnext : ∀ a b, R a b → Alike S (f a) (g b)) :
    Alike S (t.andThen f) (u.andThen g) := by
  obtain ⟨calls, outcome⟩ := t
  obtain ⟨calls', outcome'⟩ := u
  cases h with
  | error e => exact .error e
  | ok hab => exact hnext _ _ hab

end Traced

/-! ## Storages behind which there are whole rows -/

/-- A query selects a column: by its name, with or without something in front of it, or by
selecting all columns. -/
def SelectQuery.Selects (q : SelectQuery) (name : String) : Prop :=
  q.columns = [] ∨
    ∃ column ∈ q.columns, column = name ∨ ∃ qualifier, column = qualifier ++ "." ++ name

/-- Two queries ask for the same rows, whatever they select of them. -/
structure SelectQuery.SameRows (q q' : SelectQuery) : Prop where
  table : q.table = q'.table
  conditions : q.conditions = q'.conditions
  limit : q.limit = q'.limit
  offset : q.offset = q'.offset

/-- A row shows what a query selects of the row behind it: the expressions under their aliases,
and the columns that are selected. -/
structure Shows (computed : Row → List (String × String) → String → Value) (q : SelectQuery)
    (whole row : Row) : Prop where
  aliases : ∀ name ∈ q.expressions.map (·.2),
    row.get? name = some (computed whole q.expressions name)
  columns : ∀ name ∉ q.expressions.map (·.2), q.Selects name → row.get? name = whole.get? name
  others : ∀ name ∉ q.expressions.map (·.2), ¬ q.Selects name → row.get? name = none

/-- The rows behind the rows of a query, by its table, its conditions, its limit and its offset. -/
abbrev WholeRows := String → List Condition → Option Nat → Option Nat →
  Except StorageError (List Row)

/-- A storage narrows whole rows: which there are, in which order, whether fetching or counting
fails and what is counted depends on the table, the conditions, the limit and the offset of a
query alone, and a row shows what the query selects of it. -/
structure Storage.Narrows (s : Storage) (whole : WholeRows)
    (computed : Row → List (String × String) → String → Value) : Prop where
  count : ∀ q q' : SelectQuery, q.table = q'.table → q.conditions = q'.conditions →
    q.limit = q'.limit → q.offset = q'.offset → s.count q = s.count q'
  fetch : ∀ q : SelectQuery, OutcomesAlike (List.Forall₂ (Shows computed q))
    (whole q.table q.conditions q.limit q.offset) (s.fetch q)

/-! ## The storage of whole rows -/

/-- Whether a column has something in front of a name can be seen at its end. -/
theorem exists_qualifier_iff {column name : String} :
    (∃ qualifier, column = qualifier ++ "." ++ name) ↔
      ("." ++ name).toList <:+ column.toList := by
  constructor
  · rintro ⟨qualifier, rfl⟩
    refine ⟨qualifier.toList, ?_⟩
    simp only [String.toList_append, List.append_assoc]
  · rintro ⟨front, hfront⟩
    refine ⟨String.ofList front, String.toList_inj.1 ?_⟩
    rw [← hfront]
    simp only [String.toList_append, String.toList_ofList, List.append_assoc]

instance (q : SelectQuery) (name : String) : Decidable (q.Selects name) :=
  have (column : String) : Decidable (∃ qualifier, column = qualifier ++ "." ++ name) :=
    decidable_of_iff _ exists_qualifier_iff.symm
  inferInstanceAs (Decidable (_ ∨ _))

/-- What a query shows of a whole row. -/
def SelectQuery.shown (computed : Row → List (String × String) → String → Value)
    (q : SelectQuery) (whole : Row) : Row :=
  (q.expressions.map (·.2)).map (fun name => (name, computed whole q.expressions name)) ++
    whole.filter fun pair => q.Selects pair.1

/-- The storage of whole rows. -/
def WholeRows.storage (whole : WholeRows)
    (computed : Row → List (String × String) → String → Value) : Storage where
  count q := (whole q.table q.conditions q.limit q.offset).map List.length
  fetch q := (whole q.table q.conditions q.limit q.offset).map fun rows =>
    rows.map (q.shown computed)

lemma shows_shown (computed : Row → List (String × String) → String → Value)
    (q : SelectQuery) (whole : Row) : Shows computed q whole (q.shown computed whole) := by
  refine ⟨fun name halias => ?_, fun name halias hselects => ?_, fun name halias hselects => ?_⟩
  · rw [SelectQuery.shown, Entries.get?_map_append, if_pos halias]
  · rw [SelectQuery.shown, Entries.get?_map_append, if_neg halias,
      Entries.get?_filter_names whole (fun name => decide (q.Selects name)),
      if_pos (decide_eq_true hselects)]
  · rw [SelectQuery.shown, Entries.get?_map_append, if_neg halias,
      Entries.get?_filter_names whole (fun name => decide (q.Selects name)),
      if_neg (by rwa [decide_eq_true_iff])]

/-- Whatever the whole rows are, their storage narrows them. -/
lemma WholeRows.narrows_storage (whole : WholeRows)
    (computed : Row → List (String × String) → String → Value) :
    (whole.storage computed).Narrows whole computed := by
  refine ⟨fun q q' htable hconditions hlimit hoffset => ?_, fun q => ?_⟩
  · show (whole q.table q.conditions q.limit q.offset).map _ =
      (whole q'.table q'.conditions q'.limit q'.offset).map _
    rw [htable, hconditions, hlimit, hoffset]
  · show OutcomesAlike _ _ ((whole q.table q.conditions q.limit q.offset).map _)
    cases whole q.table q.conditions q.limit q.offset with
    | error e => exact .error e
    | ok rows =>
      refine .ok (List.forall₂_map_right_iff.2 (List.forall₂_same.2 fun row _ => ?_))
      exact shows_shown computed q row

/-! ## Rows that are alike -/

/-- Two rows cannot be told apart by the entries that a projection reads. -/
def RowsAlike (p : Projection) (a b : Row) : Prop :=
  ∀ name, p.Reads name → a.get? name = b.get? name

lemma RowsAlike.of_shows {computed : Row → List (String × String) → String → Value}
    {p : Projection} {narrow wide : SelectQuery} (h : p.Narrowed narrow wide) {whole a b : Row}
    (ha : Shows computed narrow whole a) (hb : Shows computed wide whole b) :
    RowsAlike p a b := by
  intro name hreads
  by_cases halias : name ∈ narrow.expressions.map (·.2)
  · have halias' : name ∈ wide.expressions.map (·.2) := h.expressions ▸ halias
    rw [ha.aliases name halias, hb.aliases name halias', h.expressions]
  · have halias' : name ∉ wide.expressions.map (·.2) := h.expressions ▸ halias
    -- The columns of both queries are the same, or narrow on the one side and all on the other.
    rcases h.columns with hsame | ⟨hnarrow, hwide⟩
    · have hselects : narrow.Selects name ↔ wide.Selects name := by
        rw [SelectQuery.Selects, SelectQuery.Selects, hsame]
      by_cases hn : narrow.Selects name
      · rw [ha.columns name halias hn, hb.columns name halias' (hselects.1 hn)]
      · rw [ha.others name halias hn, hb.others name halias' fun hw => hn (hselects.2 hw)]
    · have hn : narrow.Selects name := by
        have hkeeps := hreads.1
        rw [Projection.keeps, Bool.or_eq_true, Bool.or_eq_true] at hkeeps
        rcases hkeeps with (hempty | hcolumn) | haliases
        · exact .inl (hnarrow.trans (List.isEmpty_iff.1 hempty))
        · rw [List.contains_iff_mem, ← hnarrow] at hcolumn
          refine .inr ⟨_, hcolumn, ?_⟩
          rw [Projection.qualify]
          split
          · next table _ => exact .inr ⟨table, rfl⟩
          · exact .inl rfl
        · obtain ⟨e, he, hname⟩ := List.any_eq_true.1 haliases
          rw [beq_iff_eq] at hname
          exact absurd (h.aliases name (List.mem_map.2 ⟨e, he, hname⟩)) halias
      rw [ha.columns name halias hn, hb.columns name halias' (.inl hwide)]

lemma forall₂_of_common {α β γ : Type} {R : α → β → Prop} {S : α → γ → Prop}
    {T : β → γ → Prop} (h : ∀ a b c, R a b → S a c → T b c) {as : List α} {bs : List β}
    {cs : List γ} (hbs : List.Forall₂ R as bs) (hcs : List.Forall₂ S as cs) :
    List.Forall₂ T bs cs := by
  induction hbs generalizing cs with
  | nil =>
    cases hcs
    exact .nil
  | cons hR _ ih =>
    cases hcs with
    | cons hS hrest => exact .cons (h _ _ _ hR hS) (ih hrest)

variable {s : Storage} {whole : WholeRows}
  {computed : Row → List (String × String) → String → Value}

/-- Queries for the same rows bring rows that are related, where what the two queries show of a
stored row is. -/
theorem alike_fetch_of_shows (hs : s.Narrows whole computed) {q q' : SelectQuery}
    (hsame : q.SameRows q') {R : Row → Row → Prop}
    (h : ∀ stored a b, Shows computed q stored a → Shows computed q' stored b → R a b) :
    Traced.Alike (List.Forall₂ R) (s.traceFetch q) (s.traceFetch q') := by
  have hown := hs.fetch q
  have hother := hs.fetch q'
  rw [hsame.table, hsame.conditions, hsame.limit, hsame.offset] at hown
  rw [Traced.Alike, Storage.traceFetch, Storage.traceFetch]
  revert hown hother
  generalize whole q'.table q'.conditions q'.limit q'.offset = outcome
  generalize s.fetch q = fetched
  generalize s.fetch q' = fetched'
  intro hown hother
  cases hown with
  | error e =>
    cases hother
    exact .error _
  | ok hown =>
    cases hother with
    | ok hother => exact .ok (forall₂_of_common h hown hother)

lemma Projection.Narrowed.sameRows {p : Projection} {narrow wide : SelectQuery}
    (h : p.Narrowed narrow wide) : narrow.SameRows wide :=
  ⟨h.table, h.conditions, h.limit, h.offset⟩

/-- A narrow and a wide query bring rows that are alike. -/
theorem alike_fetch (hs : s.Narrows whole computed) {p : Projection} {narrow wide : SelectQuery}
    (h : p.Narrowed narrow wide) :
    Traced.Alike (List.Forall₂ (RowsAlike p)) (s.traceFetch narrow) (s.traceFetch wide) :=
  alike_fetch_of_shows hs h.sameRows fun _ _ _ => .of_shows h

/-- Queries for the same rows count the same. -/
lemma alike_count (hs : s.Narrows whole computed) {q q' : SelectQuery} (h : q.SameRows q') :
    Traced.Alike (· = ·) (s.traceCount q) (s.traceCount q') := by
  rw [Traced.Alike, Storage.traceCount, Storage.traceCount,
    hs.count q q' h.table h.conditions h.limit h.offset]
  cases s.count q' with
  | error e => exact .error _
  | ok n => exact .ok rfl

end GraphProjection
