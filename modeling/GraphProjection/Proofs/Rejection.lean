import GraphProjection.Proofs.Loading
import GraphProjection.Proofs.Narrowing
import GraphProjection.Proofs.Selection

/-!
# Requests that do not reach the storage

A request that cannot be read or expanded is rejected without a call.  Of any other request a root
field may be refused: it is unknown, its parameters are not bound, its selection has no projection,
or the page that its own arguments ask for does not exist.  All of this is known before anything
is fetched, so a root field that is refused makes no call, whatever the storage.

A root field that is not refused makes a call (`resolveRoot_cases`), and then there is only one
reason left for which a request can be blamed: a relation below asks for a page that does not exist.
The arguments of a relation are looked at when its rows have been fetched
(`failsOnly_loadAll`), so this reason comes too late to make no call.

Main statement: **`calls_of_blamesRequest`**, which of the errors that blame the request come
before the first call, and which one does not.
-/

namespace GraphProjection

open FieldNode

/-! ## What a computation can fail with -/

namespace Traced

variable {α β : Type}

/-- The failures of a computation are of a kind. -/
def FailsOnly (kind : ExecutionError → Prop) (t : Traced α) : Prop :=
  ∀ e, t.outcome = .error e → kind e

variable {kind : ExecutionError → Prop}

lemma FailsOnly.pure (a : α) : FailsOnly kind (Traced.pure a) := by
  intro e h
  cases h

lemma FailsOnly.fail {e : ExecutionError} (h : kind e) :
    FailsOnly kind (Traced.fail e : Traced α) := by
  intro other hother
  cases hother
  exact h

lemma FailsOnly.andThen {t : Traced α} {next : α → Traced β} (ht : FailsOnly kind t)
    (hnext : ∀ a, FailsOnly kind (next a)) : FailsOnly kind (t.andThen next) := by
  intro e h
  cases hvalue : t.outcome with
  | error other =>
    rw [Traced.andThen, hvalue] at h
    cases h
    exact ht e hvalue
  | ok a =>
    rw [outcome_andThen_of_ok hvalue] at h
    exact hnext a e h

lemma FailsOnly.imp {other : ExecutionError → Prop} {t : Traced α} (h : FailsOnly kind t)
    (himp : ∀ e, kind e → other e) : FailsOnly other t :=
  fun e he => himp e (h e he)

/-- Calls that were made stay made. -/
lemma calls_andThen_ne_nil {t : Traced α} (h : t.calls ≠ []) (next : α → Traced β) :
    (t.andThen next).calls ≠ [] := by
  rw [Traced.andThen]
  split
  · exact h
  · exact List.append_ne_nil_of_left_ne_nil h _

end Traced

open Traced

/-- A failure of the storage. -/
def ExecutionError.IsStorage (e : ExecutionError) : Prop := ∃ fault, e = .storage fault

namespace Storage

lemma failsOnly_answered {α : Type} {calls : List StorageCall}
    (answer : Except StorageError α) :
    FailsOnly ExecutionError.IsStorage ⟨calls, answered answer⟩ := by
  intro e h
  cases answer with
  | ok a => cases h
  | error fault =>
    cases h
    exact ⟨fault, rfl⟩

end Storage

/-! ## Pages that relations ask for -/

/-- Somewhere in a projection a relation asks for a page that its arguments do not describe. -/
inductive Projection.AsksWrongPage (defaultPerPage : Nat) (fault : PageError) : Projection → Prop
  | here {p : Projection} {entry : RelationEntry} {child : Projection} {kind : PageKind}
      (hmem : (entry, child) ∈ p.relations) (hkind : entry.page = some kind)
      (hfault : PageRequest.ofArguments kind entry.arguments defaultPerPage = .error fault) :
      AsksWrongPage defaultPerPage fault p
  | under {p : Projection} {entry : RelationEntry} {child : Projection}
      (hmem : (entry, child) ∈ p.relations) (h : AsksWrongPage defaultPerPage fault child) :
      AsksWrongPage defaultPerPage fault p

/-- What loading the relations of a projection can fail with: an answer of the storage, or the
page of a relation. -/
def Projection.LoadFault (defaultPerPage : Nat) (projection : Option Projection)
    (e : ExecutionError) : Prop :=
  e.IsStorage ∨ ∃ fault p, e = .page fault ∧ projection = some p ∧
    p.AsksWrongPage defaultPerPage fault

namespace Stitching

open Projection

/-- A page that cannot be read is that of the relation. -/
lemma asksWrongPage_of_relationPage {defaultPerPage : Nat} {projection : Option Projection}
    {field : String} {fault : PageError}
    (h : relationPage ((projection.bind (·.relation? field)).map (·.1)) defaultPerPage =
      .error fault) :
    ∃ p, projection = some p ∧ p.AsksWrongPage defaultPerPage fault := by
  cases projection with
  | none => cases h
  | some p =>
    cases hfound : p.relation? field with
    | none => simp [relationPage, hfound] at h
    | some relation =>
      obtain ⟨entry, child⟩ := relation
      cases hkind : entry.page with
      | none => simp [relationPage, hfound, hkind] at h
      | some kind =>
        refine ⟨p, rfl, .here (mem_of_relation? hfound).1 hkind ?_⟩
        simp only [relationPage, hfound, hkind, Option.bind_some, Option.map_some] at h
        cases harguments : PageRequest.ofArguments kind entry.arguments defaultPerPage with
        | ok page =>
          rw [harguments] at h
          cases h
        | error other =>
          rw [harguments] at h
          cases h
          rfl

/-- A fault below a relation is a fault of the projection. -/
lemma LoadFault.of_relation {defaultPerPage : Nat} {projection : Option Projection}
    {field : String} {e : ExecutionError}
    (h : LoadFault defaultPerPage ((projection.bind (·.relation? field)).map (·.2)) e) :
    LoadFault defaultPerPage projection e := by
  rcases h with hstorage | ⟨fault, child, rfl, hchild, hwrong⟩
  · exact .inl hstorage
  · cases projection with
    | none => cases hchild
    | some p =>
      obtain ⟨⟨entry, below⟩, hfound, rfl⟩ := Option.map_eq_some_iff.1 hchild
      exact .inr ⟨fault, p, rfl, rfl, .under (mem_of_relation? hfound).1 hwrong⟩

mutual

lemma failsOnly_loadQuery (s : Storage) (defaultPerPage : Nat) : (query : SelectQuery) →
    (projection : Option Projection) → (rows : List Row) →
    FailsOnly (LoadFault defaultPerPage projection)
      (loadQuery s defaultPerPage query projection rows)
  | ⟨_, _, _, _, _, _, loads⟩, projection, rows => by
    rw [loadQuery]
    exact failsOnly_loadAll s defaultPerPage loads projection rows

/-- Loading relations fails with an answer of the storage or with the page of a relation. -/
theorem failsOnly_loadAll (s : Storage) (defaultPerPage : Nat) :
    (loads : List (RelationTarget × SelectQuery)) → (projection : Option Projection) →
    (rows : List Row) →
    FailsOnly (LoadFault defaultPerPage projection)
      (loadAll s defaultPerPage loads projection rows)
  | [], projection, rows => by
    rw [loadAll]
    exact .pure rows
  | (target, query) :: rest, projection, rows => by
    rw [loadAll]
    refine ((Storage.failsOnly_answered _).imp fun e => .inl).andThen fun fetched => ?_
    have hbelow := failsOnly_loadQuery s defaultPerPage query
      ((projection.bind (·.relation? target.field)).map (·.2)) fetched
    refine (hbelow.imp fun e => LoadFault.of_relation).andThen fun related => ?_
    split
    · next fault hpage =>
      obtain ⟨p, hp, hwrong⟩ := asksWrongPage_of_relationPage hpage
      exact .fail (.inr ⟨fault, p, rfl, hp, hwrong⟩)
    · exact failsOnly_loadAll s defaultPerPage rest projection _

end

end Stitching

/-! ## Root fields that are refused -/

namespace ExecutionError

/-- Whether an error blames the request: its root field, its parameters, its selection, or a page
that it asks for. -/
def blamesRequest : ExecutionError → Bool
  | .unknownRootField _ _ | .bind _ | .projection _ | .page _ => true
  | .noMatchingRow _ _ | .storage _ | .shape _ => false

end ExecutionError

namespace Schema

/-- A root field is refused for an error that is known before anything is fetched. -/
inductive Refused (s : Schema) (r : ResponseField) : ExecutionError → Prop
  | unknown (hfield : s.field? r.node.name = none) :
      Refused s r (.unknownRootField queryType r.node.name)
  | unprepared {field : RootField} {e : ExecutionError}
      (hfield : s.field? r.node.name = some field) (hprepare : s.prepare field r = .error e) :
      Refused s r e
  | page {field : RootField} {p : Prepared} {kind : PageKind} {item : String}
      {fault : PageError} (hfield : s.field? r.node.name = some field)
      (hprepare : s.prepare field r = .ok p)
      (henvelope : s.registry.envelope? field.type.namedType = some (kind, item))
      (hfault : PageRequest.ofArguments kind r.node.arguments
        s.registry.settings.defaultPerPage = .error fault) :
      Refused s r (.page fault)

/-- A relation below a root field asks for a page that its arguments do not describe. -/
def AsksWrongPageBelow (s : Schema) (r : ResponseField) (fault : PageError) : Prop :=
  ∃ field p, s.field? r.node.name = some field ∧ s.prepare field r = .ok p ∧
    p.projection.AsksWrongPage s.registry.settings.defaultPerPage fault

/-- What fetching the value of a prepared root field can fail with. -/
def FetchFault (s : Schema) (p : Prepared) (e : ExecutionError) : Prop :=
  (∃ fault, e = .page fault ∧
    p.projection.AsksWrongPage s.registry.settings.defaultPerPage fault) ∨
    e.blamesRequest = false

lemma failsOnly_fetchRows (s : Schema) (storage : Storage) (p : Prepared)
    (query : SelectQuery) (keep : List Row → List Row) :
    FailsOnly (s.FetchFault p) (s.fetchRows storage p query keep) := by
  have hload : ∀ e, Projection.LoadFault s.registry.settings.defaultPerPage
      (some p.projection) e → s.FetchFault p e := by
    rintro e (⟨fault, rfl⟩ | ⟨fault, _, rfl, hsome, hwrong⟩)
    · exact .inr rfl
    · cases hsome
      exact .inl ⟨fault, rfl, hwrong⟩
  refine FailsOnly.andThen ((Storage.failsOnly_answered _).imp fun e he => hload e (.inl he))
    fun rows => ?_
  exact (Stitching.failsOnly_loadQuery _ _ _ _ _).imp hload

lemma calls_fetchRows_ne_nil (s : Schema) (storage : Storage) (p : Prepared)
    (query : SelectQuery) (keep : List Row → List Row) :
    (s.fetchRows storage p query keep).calls ≠ [] :=
  calls_andThen_ne_nil (List.cons_ne_nil _ _) _

/-- Fetching the value of a root field makes a call, unless its arguments describe no page. -/
lemma fetchValue_cases (s : Schema) (storage : Storage) (field : RootField) (p : Prepared)
    (r : ResponseField) :
    (∃ kind item fault,
      s.registry.envelope? field.type.namedType = some (kind, item) ∧
      PageRequest.ofArguments kind r.node.arguments s.registry.settings.defaultPerPage =
        .error fault) ∨
      ((s.fetchValue storage field p r).calls ≠ [] ∧
        FailsOnly (s.FetchFault p) (s.fetchValue storage field p r)) := by
  rw [fetchValue]
  split
  · next kind item henvelope =>
    rw [fetchPage]
    split
    · next fault hfault => exact .inl ⟨kind, item, fault, henvelope, hfault⟩
    · next page _ =>
      -- Once the page is known, a call is made, for the total or the rows; the arguments are not
      -- looked at again.
      refine .inr ⟨?_, ?_⟩
      · rw [fetchTotal]
        split
        · exact calls_andThen_ne_nil (calls_andThen_ne_nil (List.cons_ne_nil _ _) _) _
        · rw [andThen_pure]
          exact calls_andThen_ne_nil (s.calls_fetchRows_ne_nil storage p _ _) _
      · refine FailsOnly.andThen ?_ fun total => ?_
        · rw [fetchTotal]
          split
          · refine FailsOnly.andThen ((Storage.failsOnly_answered _).imp ?_) fun n => .pure _
            rintro e ⟨fault, rfl⟩
            exact .inr rfl
          · exact .pure _
        · exact (s.failsOnly_fetchRows storage p _ _).andThen fun rows => .pure _
  · split
    · exact .inr ⟨calls_andThen_ne_nil (s.calls_fetchRows_ne_nil storage p _ _) _,
        (s.failsOnly_fetchRows storage p _ _).andThen fun rows => .pure _⟩
    · refine .inr ⟨calls_andThen_ne_nil (s.calls_fetchRows_ne_nil storage p _ _) _,
        (s.failsOnly_fetchRows storage p _ _).andThen fun rows => ?_⟩
      split
      · exact .pure _
      · split
        · exact .fail (.inr rfl)
        · exact .pure _

/-- A root field that is refused fails without a call, whatever the storage. -/
lemma Refused.resolveRoot_eq {s : Schema} {r : ResponseField} {e : ExecutionError}
    (h : s.Refused r e) (storage : Storage) : s.resolveRoot storage r = .fail e := by
  rw [resolveRoot]
  cases h with
  | unknown hfield => rw [hfield]
  | unprepared hfield hprepare => simp only [hfield, hprepare]
  | page hfield hprepare henvelope hfault =>
    simp only [hfield, hprepare, fetchValue, henvelope, fetchPage, hfault, andThen_fail]

/-- A root field is either refused, or it makes a call, and then it can only be blamed
on the request for a page that a relation below asks for. -/
theorem resolveRoot_cases (s : Schema) (storage : Storage) (r : ResponseField) :
    (∃ e, s.Refused r e) ∨
      ((s.resolveRoot storage r).calls ≠ [] ∧
        FailsOnly (fun e => (∃ fault, e = .page fault ∧ s.AsksWrongPageBelow r fault) ∨
          e.blamesRequest = false) (s.resolveRoot storage r)) := by
  rw [resolveRoot]
  split
  · next hfield => exact .inl ⟨_, .unknown hfield⟩
  · next field hfield =>
    split
    · next e hprepare => exact .inl ⟨e, .unprepared hfield hprepare⟩
    · next p hprepare =>
      rcases s.fetchValue_cases storage field p r with
        ⟨kind, item, fault, henvelope, hfault⟩ | ⟨hcalls, hfails⟩
      · exact .inl ⟨_, .page hfield hprepare henvelope hfault⟩
      · refine .inr ⟨calls_andThen_ne_nil hcalls _, FailsOnly.andThen (hfails.imp ?_) ?_⟩
        · rintro e (⟨fault, rfl, hwrong⟩ | hblames)
          · exact .inl ⟨fault, rfl, field, p, hfield, hprepare, hwrong⟩
          · exact .inr hblames
        · intro value
          split
          · exact .fail (.inr rfl)
          · exact .pure _

/-! ## Requests that are rejected, and root fields that are refused -/

/-- **What is wrong with a request is noticed before the first call, but for the pages of
relations.**  A request that cannot be read or expanded makes no call and has no data and one error.
A root field that fails with an error that blames the request makes no call exactly when it is
refused; otherwise a relation below it asks for a page that does not exist, which is noticed once
rows have been fetched. -/
theorem calls_of_blamesRequest (s : Schema) (storage : Storage) (request : Request) :
    (∀ e, s.requestedFields request = .error e →
      s.execute storage request = ⟨[], ⟨none, [e.response]⟩⟩) ∧
    (∀ nodes, s.requestedFields request = .ok nodes →
      ∀ r ∈ grouped nodes, r.node.name ≠ typename →
        ∀ e, (s.resolveRoot storage r).outcome = .error e → e.blamesRequest = true →
          ((s.answerRoot storage r).calls = [] ↔ s.Refused r e) ∧
          (¬ s.Refused r e → ∃ fault, e = .page fault ∧ s.AsksWrongPageBelow r fault)) := by
  refine ⟨fun e he => ?_, fun nodes _ r _ htypename e he hblames => ?_⟩
  · rw [execute, he]
    rfl
  · have hcalls : (s.answerRoot storage r).calls = (s.resolveRoot storage r).calls := by
      rw [answerRoot, if_neg htypename]
      simp only [he]
    rw [hcalls]
    have hnone : s.Refused r e → (s.resolveRoot storage r).calls = [] := by
      intro hrefused
      rw [hrefused.resolveRoot_eq storage]
      rfl
    rcases s.resolveRoot_cases storage r with ⟨other, hrefused⟩ | ⟨hmade, hfails⟩
    · rw [hrefused.resolveRoot_eq storage] at he
      cases he
      exact ⟨⟨fun _ => hrefused, hnone⟩, fun hnot => absurd hrefused hnot⟩
    · refine ⟨⟨fun hcalls => absurd hcalls hmade, hnone⟩, fun _ => ?_⟩
      exact (hfails e he).resolve_right (by simp [hblames])

/-- Posts with no comments on a page. -/
def emptyPageRequest : Request where
  query := "\x7b posts \x7b comments(limit: 0) \x7b data \x7b body \x7d \x7d \x7d \x7d"

/-- The page of the comments is refused when posts and comments have been fetched. -/
theorem calls_of_emptyPageRequest :
    ∃ nodes r fault, blogSchema.requestedFields emptyPageRequest = .ok nodes ∧
      r ∈ grouped nodes ∧
      (blogSchema.resolveRoot blogStorage r).outcome = .error (.page fault) ∧
      blogSchema.AsksWrongPageBelow r fault ∧
      askedColumns (blogSchema.execute blogStorage emptyPageRequest) =
        [["posts.id"], ["comments.body", "comments.post_id"]] := by
  have hrun : (match blogSchema.requestedFields emptyPageRequest with
      | .ok nodes => (grouped nodes).map (fun r => (r.node.name == typename,
          (blogSchema.answerRoot blogStorage r).calls.isEmpty,
          match (blogSchema.resolveRoot blogStorage r).outcome with
          | .error e => e.blamesRequest
          | .ok _ => false)) == [(false, false, true)]
      | .error _ => false) = true := by decide +kernel
  cases hnodes : blogSchema.requestedFields emptyPageRequest with
  | error e =>
    rw [hnodes] at hrun
    cases hrun
  | ok nodes =>
    rw [hnodes] at hrun
    match hgroups : grouped nodes with
    | [] | _ :: _ :: _ => simp [hgroups] at hrun
    | [r] =>
      simp only [hgroups, List.map_cons, List.map_nil, beq_iff_eq, List.cons.injEq,
        Prod.mk.injEq, and_true, beq_eq_false_iff_ne] at hrun
      obtain ⟨htypename, hcalls, hblames⟩ := hrun
      have hr : r ∈ grouped nodes := by simp [hgroups]
      cases houtcome : (blogSchema.resolveRoot blogStorage r).outcome with
      | ok shaped =>
        rw [houtcome] at hblames
        cases hblames
      | error e =>
        rw [houtcome] at hblames
        obtain ⟨hiff, hlate⟩ := (calls_of_blamesRequest blogSchema blogStorage
          emptyPageRequest).2 nodes hnodes r hr htypename e houtcome hblames
        -- Calls have been made, so the arguments of the root field itself were not at fault.
        have hnot : ¬ blogSchema.Refused r e := by
          intro hrefused
          rw [hiff.2 hrefused] at hcalls
          cases hcalls
        obtain ⟨fault, rfl, hwrong⟩ := hlate hnot
        exact ⟨nodes, r, fault, rfl, hgroups ▸ hr, houtcome, hwrong, by decide +kernel⟩

end Schema

end GraphProjection
