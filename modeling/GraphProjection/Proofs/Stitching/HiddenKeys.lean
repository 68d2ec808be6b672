import GraphProjection.Proofs.Entries
import GraphProjection.Proofs.Stitching

/-!
# Hidden keys

`KeysApart` is not only enough for stitching to be exact but needed.  Where a slot hides a key,
there are a storage and a row for which the loader does not meet the description.

One storage serves all cases: its rows have the number one under every key, and it returns such a
row to whoever asks for one.  Rows like that belong to each other, so every slot has something in
it.  A slot that hides a key puts a list, an object or null in the key's place; nothing belongs to
that, and the relation that reads the key comes out empty.
-/

namespace GraphProjection

namespace Stitching

/-! ## A storage of ones -/

/-- The key of all rows. -/
def one : Value := .int 1

/-- A row with the key under every name. -/
def rowOfOnes (names : List String) : Row := names.map fun name => (name, one)

/-- Whether a query asks for the key among others. -/
def asksForOne (query : SelectQuery) : Bool :=
  match query.conditions.getLast? with
  | some (.within _ values) => values.any (·.same one)
  | _ => false

/-- The storage that has one row for whoever asks for the key. -/
def storageOfOnes (names : List String) : Storage :=
  ⟨fun _ => .ok 0, fun query => .ok (if asksForOne query then [rowOfOnes names] else [])⟩

/-- All keys of relations, at any depth, are among some names. -/
def KeysAmong (names : List String) (loads : List Load) : Prop :=
  ∀ load, LoadIn loads load → load.1.localKey ∈ names ∧ load.1.foreignKey ∈ names

variable {names : List String} {load : Load} {others loads : List Load}

lemma KeysAmong.rest (h : KeysAmong names (load :: others)) : KeysAmong names others :=
  fun deep hd => h deep hd.of_rest

lemma KeysAmong.below (h : KeysAmong names (load :: others)) :
    KeysAmong names load.2.eagerLoads :=
  fun deep hd => h deep (.under List.mem_cons_self hd)

lemma exists_keysAmong (h : FieldsDistinct loads) : ∃ names, KeysAmong names loads := by
  induction h with
  | nil =>
    refine ⟨[], fun load hload => ?_⟩
    cases hload with
    | here h => cases h
    | under h _ => cases h
  | @cons load others _ _ _ ihbelow ihrest =>
    obtain ⟨below, hbelow⟩ := ihbelow
    obtain ⟨rest, hrest⟩ := ihrest
    refine ⟨load.1.localKey :: load.1.foreignKey :: (below ++ rest), fun deep hdeep => ?_⟩
    have hin (hd : LoadIn others deep ∨ LoadIn load.2.eagerLoads deep) :
        deep.1.localKey ∈ below ++ rest ∧ deep.1.foreignKey ∈ below ++ rest := by
      rcases hd with hd | hd
      · exact ⟨List.mem_append_right _ (hrest deep hd).1,
          List.mem_append_right _ (hrest deep hd).2⟩
      · exact ⟨List.mem_append_left _ (hbelow deep hd).1,
          List.mem_append_left _ (hbelow deep hd).2⟩
    cases hdeep with
    | here h =>
      rcases List.mem_cons.1 h with rfl | h
      · simp
      · simp [hin (.inl (.here h))]
    | under h hd =>
      rcases List.mem_cons.1 h with rfl | h
      · simp [hin (.inr hd)]
      · simp [hin (.inl (.under h hd))]

lemma get?_rowOfOnes {name : String} (h : name ∈ names) :
    Entries.get? (rowOfOnes names) name = some one := by
  induction names with
  | nil => cases h
  | cons first rest ih =>
    rw [rowOfOnes, List.map_cons, Entries.get?]
    split
    · rfl
    · next hne => exact ih ((List.mem_cons.1 h).resolve_left fun heq => hne heq.symm)

lemma eq_one_of_get?_rowOfOnes {name : String} {v : Value}
    (h : Entries.get? (rowOfOnes names) name = some v) : v = one := by
  obtain ⟨other, -, heq⟩ := List.mem_map.1 (Entries.mem_of_get?_eq_some h)
  cases heq
  rfl

lemma same_one_iff {v : Value} : v.same one = true ↔ v = one := by
  cases v <;> simp [one, Value.same]

lemma fetch_storageOfOnes (load : Load) (values : List Value) :
    (storageOfOnes names).fetch (boundQuery load values) =
      .ok (if values.any (·.same one) then [rowOfOnes names] else []) := by
  have hasks : asksForOne (boundQuery load values) = values.any (·.same one) := by
    rw [asksForOne, boundQuery, SelectQuery.whereIn, SelectQuery.addCondition]
    simp
  rw [storageOfOnes]
  simp only [hasks]

/-- The storage only returns rows that were asked for, and their keys are keys. -/
lemma answers_storageOfOnes (h : KeysAmong names loads) :
    Answers (storageOfOnes names) loads where
  asked := by
    intro load hload values fetched hfetched row hrow
    rw [fetch_storageOfOnes] at hfetched
    cases hfetched
    split at hrow
    · next hany =>
      obtain ⟨v, hv, hsame⟩ := List.any_eq_true.1 hany
      rw [List.mem_singleton.1 hrow]
      exact ⟨v, hv, (same_one_iff.1 hsame).symm ▸ get?_rowOfOnes (h load hload).2⟩
    · cases hrow
  keyed := by
    intro load _ values fetched hfetched other _ row hrow v hv
    rw [fetch_storageOfOnes] at hfetched
    cases hfetched
    split at hrow
    · rw [List.mem_singleton.1 hrow] at hv
      rw [eq_one_of_get?_rowOfOnes hv]
      rfl
    · cases hrow

/-- Loading from it never fails. -/
lemma exists_loadAll_storageOfOnes (defaultPerPage : Nat) (h : FieldsDistinct loads)
    (rows : List Row) :
    ∃ done, (loadAll (storageOfOnes names) defaultPerPage loads none rows).outcome =
      .ok done := by
  induction h generalizing rows with
  | nil => exact ⟨rows, rfl⟩
  | @cons load others _ _ _ ihbelow ihrest =>
    obtain ⟨target, query⟩ := load
    have hfetched : (storageOfOnes names).fetch (relatedQuery target query rows) = .ok _ :=
      fetch_storageOfOnes (target, query) (keys target.localKey rows)
    obtain ⟨related, hrelated⟩ := ihbelow (if (keys target.localKey rows).any (·.same one)
      then [rowOfOnes names] else [])
    obtain ⟨done, hdone⟩ := ihrest (rows.map (attach target none related))
    exact ⟨done, (outcome_loadAll_cons hfetched hrelated rfl).trans hdone⟩

/-! ## What is in a slot -/

/-- The values that relations without pages are attached as. -/
inductive Attached : Value → Prop
  | null : Attached .null
  | list (items : List Value) : Attached (.array items)
  | row (members : Row) : Attached (.object members)

lemma attached_attachedValue (target : RelationTarget) (rows : List Row) :
    Attached (attachedValue target none rows) := by
  rw [attachedValue]
  split
  · exact .list _
  · cases rows with
    | nil => exact .null
    | cons row rest => exact .row row

lemma Attached.text_ne_one {v : Value} (h : Attached v) : v.text ≠ one.text := by
  intro htext
  have hchars := Value.chars_eq_of_text_eq htext
  cases h <;> cases hchars

lemma Attached.same_one {v : Value} (h : Attached v) : v.same one = false := by
  cases h <;> rfl

/-- One row is attached differently from none and from another one. -/
lemma eq_of_attachedValue_eq {target : RelationTarget} {row : Row} {rows : List Row}
    (hlength : rows.length ≤ 1)
    (h : attachedValue target none rows = attachedValue target none [row]) : rows = [row] := by
  rw [attachedValue, attachedValue] at h
  match rows, hlength with
  | [], _ => cases hmany : target.many <;> simp [hmany] at h
  | [other], _ => cases hmany : target.many <;> simpa [hmany] using h

lemma keys_singleton {column : String} {row : Row} {v : Value}
    (h : row.get? column = some v) : keys column [row] = if v.isNull then [] else [v] := by
  rw [keys, List.filterMap_cons, h]
  cases hnull : v.isNull <;> simp [hnull, distinctByText]

/-- A relation whose local key is hidden comes out empty. -/
lemma get?_slot_of_hidden {defaultPerPage : Nat} {row done : Row}
    (hdistinct : FieldsDistinct loads) (hload : load ∈ loads) {v : Value}
    (hkey : row.get? load.1.localKey = some v) (hv : Attached v)
    (h : (loadAll (storageOfOnes names) defaultPerPage loads none [row]).outcome =
      .ok [done]) :
    done.get? load.1.field = some (attachedValue load.1 none []) := by
  induction hdistinct generalizing row v with
  | nil => cases hload
  | @cons first others hfresh _ _ _ ihrest =>
    obtain ⟨fetched, related, page, hfetched, hrelated, hpage, hrest, -⟩ := loadAll_cons h
    cases hpage
    rcases List.mem_cons.1 hload with rfl | hload
    · have hnone : (keys load.1.localKey [row]).any (·.same one) = false := by
        rw [keys_singleton hkey]
        cases v.isNull <;> simp [hv.same_one]
      rw [relatedQuery, ← boundQuery, fetch_storageOfOnes, hnone] at hfetched
      cases hfetched
      cases loadAll_frame hrelated
      cases loadAll_frame hrest with
      | cons hframe _ =>
        rw [hframe load.1.field hfresh, get?_attach_self, matching, List.filter_nil]
    · by_cases heq : first.1.field = load.1.localKey
      · refine ihrest hload (heq ▸ get?_attach_self _ _ _ _) ?_ hrest
        exact attached_attachedValue _ _
      · refine ihrest hload ?_ hv hrest
        rw [get?_attach_of_ne heq, hkey]

/-! ## Exact stitching needs keys that are not hidden -/

lemma FirstAppearances.eq_singleton {v : Value} {values : List Value}
    (h : FirstAppearances [v] values) : values = [v] := by
  have hmem (w : Value) : w ∈ values ↔ w = v := (h.mem_iff w).trans List.mem_singleton
  match values, h.nodup with
  | [], _ => exact absurd ((hmem v).2 rfl) List.not_mem_nil
  | [w], _ => rw [(hmem w).1 List.mem_cons_self]
  | w :: x :: rest, hnodup =>
    have hw := (hmem w).1 List.mem_cons_self
    have hx := (hmem x).1 (List.mem_cons_of_mem _ List.mem_cons_self)
    have hwx : w = x := hw.trans hx.symm
    exact absurd (hwx ▸ List.mem_cons_self) (List.nodup_cons.1 hnodup).1

/-- What is found for a relation of a row of ones: a row of ones. -/
lemma LookedUp.of_ones {defaultPerPage : Nat} {row : Row} {found : Lookup}
    (h : LookedUp (storageOfOnes names) defaultPerPage none [row] load found)
    (hkey : row.get? load.1.localKey = some one) :
    found.fetched = [rowOfOnes names] ∧ found.page = none := by
  have hpresent : presentKeys load.1.localKey [row] = [one] := by
    rw [presentKeys, List.filterMap_cons, hkey]
    rfl
  have hvalues := h.values
  rw [hpresent] at hvalues
  have hfetched := h.fetched
  rw [hvalues.eq_singleton, fetch_storageOfOnes] at hfetched
  exact ⟨(Except.ok.inj hfetched).symm, (Except.ok.inj h.page).symm⟩

/-- The row of ones that is found for a relation belongs to any row with one as its key. -/
lemma belonging_of_ones {row whole : Row} {found : Lookup}
    (hkey : row.get? load.1.localKey = some one) (hforeign : load.1.foreignKey ∈ names)
    (hfetched : found.fetched = [rowOfOnes names]) (hrelated : found.related = [whole]) :
    found.belonging load.1 row = [whole] := by
  have hbelongs : belongs load.1 row (rowOfOnes names) = true := by
    rw [belongs, hkey, get?_rowOfOnes hforeign]
    rfl
  rw [Lookup.belonging, hfetched, hrelated]
  simp [hbelongs]

/-- A stitched row of ones has one row in every slot, which is stitched in turn. -/
lemma exists_slot_of_ones {defaultPerPage : Nat} {row done : Row}
    {found : List (Load × Lookup)} {pair : Load × Lookup} (hpair : pair ∈ found)
    (hlooked : LookedUp (storageOfOnes names) defaultPerPage none [row] pair.1 pair.2)
    (hcompleted : Stitched (storageOfOnes names) defaultPerPage pair.1.2.eagerLoads none
      pair.2.fetched pair.2.related pair.2.calls)
    (hdone : RowStitched found row done) (hkey : row.get? pair.1.1.localKey = some one)
    (hforeign : pair.1.1.foreignKey ∈ names) :
    ∃ whole, pair.2.related = [whole] ∧
      Stitched (storageOfOnes names) defaultPerPage pair.1.2.eagerLoads none
        [rowOfOnes names] [whole] pair.2.calls ∧
      done.get? pair.1.1.field = some (attachedValue pair.1.1 none [whole]) := by
  obtain ⟨hfetched, hpage⟩ := hlooked.of_ones hkey
  rw [hfetched] at hcompleted
  obtain ⟨_, -, -, -, hrows, -⟩ := hcompleted.exists_found
  obtain ⟨whole, hrelated⟩ := List.length_eq_one_iff.1 hrows.length_eq.symm
  have hslot := hdone.slots pair hpair
  rw [hpage, belonging_of_ones hkey hforeign hfetched hrelated] at hslot
  rw [hrelated] at hcompleted
  exact ⟨whole, hrelated, hcompleted, hslot⟩

/-- A relation that is taken for attached is no longer to be found. -/
lemma RowStitched.rest {page : Option PageRequest} {related : List Row} {row done : Row}
    {first : Load × Lookup} {found : List (Load × Lookup)}
    (h : RowStitched (first :: found) row done)
    (hslot : done.get? first.1.1.field =
      Entries.get? (attach first.1.1 page related row) first.1.1.field)
    (hlocal : ∀ pair ∈ found, pair.1.1.localKey ≠ first.1.1.field) :
    RowStitched found (attach first.1.1 page related row) done where
  slots := by
    intro pair hpair
    rw [belonging_attach (hlocal pair hpair)]
    exact h.slots pair (List.mem_cons_of_mem _ hpair)
  others := by
    intro name hname
    by_cases heq : first.1.1.field = name
    · exact heq ▸ hslot
    · rw [get?_attach_of_ne heq]
      refine h.others name fun pair hpair => ?_
      rcases List.mem_cons.1 hpair with rfl | hpair
      · exact heq
      · exact hname pair hpair

/-- What the loader does with the first relation of a row of ones, if the slot of the relation has
a row in it in the end: that row is what was fetched and completed, and it kept its key. -/
theorem loadAll_cons_of_ones {defaultPerPage : Nat} {row done whole : Row}
    (hfresh : ∀ other ∈ others, other.1.field ≠ load.1.field)
    (hkey : row.get? load.1.localKey = some one)
    (hdone : (loadAll (storageOfOnes names) defaultPerPage (load :: others) none [row]).outcome =
      .ok [done])
    (hvalue : done.get? load.1.field = some (attachedValue load.1 none [whole])) :
    (loadAll (storageOfOnes names) defaultPerPage load.2.eagerLoads none
        [rowOfOnes names]).outcome = .ok [whole] ∧
      keyText load.1.foreignKey whole = one.text ∧
      done.get? load.1.field =
        Entries.get? (attach load.1 none [whole] row) load.1.field ∧
      (loadAll (storageOfOnes names) defaultPerPage others none
        [attach load.1 none [whole] row]).outcome = .ok [done] := by
  obtain ⟨fetched, related, page, hfetched, hrelated, hpage, hrest, -⟩ := loadAll_cons hdone
  cases hpage
  have hasked : (keys load.1.localKey [row]).any (·.same one) = true := by
    rw [keys_singleton hkey]
    rfl
  rw [relatedQuery, ← boundQuery, fetch_storageOfOnes, hasked] at hfetched
  cases hfetched
  obtain ⟨made, rfl⟩ := List.length_eq_one_iff.1 (loadAll_frame hrelated).length_eq.symm
  have hframe := loadAll_frame hrest
  cases hframe with
  | cons hframe _ =>
  have hslot := hframe load.1.field hfresh
  -- Nothing writes to the slot again, so what it holds is what matched.
  have hmatching : matching load.1 [made] row = [whole] := by
    rw [hvalue, get?_attach_self] at hslot
    exact eq_of_attachedValue_eq (List.length_filter_le _ _) (Option.some.inj hslot).symm
  obtain ⟨hmem, htext⟩ := List.mem_filter.1 (hmatching ▸ List.mem_singleton_self whole)
  cases List.mem_singleton.1 hmem
  refine ⟨hrelated, ?_, hslot, hrest⟩
  rw [beq_iff_eq, keyText, keyText, hkey] at htext
  exact htext

/-- A stitched row of ones that kept its foreign key has no relation attached under the name of
the key. -/
theorem field_ne_foreignKey_of_ones {defaultPerPage : Nat} {whole : Row}
    {calls : List StorageCall}
    (h : Stitched (storageOfOnes names) defaultPerPage load.2.eagerLoads none [rowOfOnes names]
      [whole] calls)
    (hkeys : ∀ other ∈ load.2.eagerLoads, other.1.localKey ∈ names)
    (htext : keyText load.1.foreignKey whole = one.text) :
    ∀ other ∈ load.2.eagerLoads, other.1.field ≠ load.1.foreignKey := by
  intro other hother heq
  obtain ⟨found, hfound, hlooked, -, hrows, -⟩ := h.exists_found
  obtain ⟨pair, hpair, rfl⟩ := List.mem_map.1 (hfound ▸ hother)
  cases hrows with
  | cons hwhole _ =>
  have hpage := ((hlooked pair hpair).of_ones (get?_rowOfOnes (hkeys pair.1 hother))).2
  have hhidden := hwhole.slots pair hpair
  rw [hpage, heq] at hhidden
  rw [keyText, hhidden] at htext
  exact (attached_attachedValue _ _).text_ne_one htext

/-- If loading the relations of a row of ones meets the description, no slot hides a key. -/
lemma keysApart_of_stitched {defaultPerPage : Nat} {row done : Row}
    {calls : List StorageCall} (hdistinct : FieldsDistinct loads) (hamong : KeysAmong names loads)
    (hones : ∀ load ∈ loads, row.get? load.1.localKey = some one)
    (hdone : (loadAll (storageOfOnes names) defaultPerPage loads none [row]).outcome =
      .ok [done])
    (h : Stitched (storageOfOnes names) defaultPerPage loads none [row] [done] calls) :
    KeysApart loads := by
  induction hdistinct generalizing row done calls with
  | nil => exact .nil
  | @cons load others hfresh _ _ ihbelow ihrest =>
    obtain ⟨found, hfound, hlooked, hcompleted, hrows, -⟩ := h.exists_found
    cases hrows with
    | cons hstitched _ =>
    have hslot (pair) (hpair : pair ∈ found) :=
      exists_slot_of_ones hpair (hlooked pair hpair) (hcompleted pair hpair) hstitched
        (hones pair.1 (hfound ▸ List.mem_map_of_mem hpair))
        (hamong pair.1 (.here (hfound ▸ List.mem_map_of_mem hpair))).2
    obtain ⟨first, rest, rfl, rfl, rfl⟩ := List.map_eq_cons_iff.1 hfound
    obtain ⟨whole, -, hbelow, hvalue⟩ := hslot first List.mem_cons_self
    obtain ⟨hrelated, htext, hattached, hrest⟩ :=
      loadAll_cons_of_ones hfresh (hones first.1 List.mem_cons_self) hdone hvalue
    have hlocal : ∀ pair ∈ rest, pair.1.1.localKey ≠ first.1.1.field := by
      intro pair hpair heq
      obtain ⟨other, -, -, hother⟩ := hslot pair (List.mem_cons_of_mem _ hpair)
      -- The key of the later relation was overwritten by what was attached, so nothing matches it.
      have hempty := get?_slot_of_hidden ‹_› (List.mem_map_of_mem hpair)
        (heq ▸ get?_attach_self _ _ _ _) (attached_attachedValue _ _) hrest
      have hnone : ([] : List Row).length ≤ 1 := Nat.zero_le 1
      rw [hempty] at hother
      cases eq_of_attachedValue_eq hnone (Option.some.inj hother)
    have hforeign := field_ne_foreignKey_of_ones hbelow
      (fun other hother => (hamong other (.under List.mem_cons_self (.here hother))).1) htext
    refine .cons ?_ hforeign ?_ ?_
    · intro other hother
      obtain ⟨pair, hpair, rfl⟩ := List.mem_map.1 hother
      exact hlocal pair hpair
    · exact ihbelow hamong.below (fun other hother =>
        get?_rowOfOnes (hamong other (.under List.mem_cons_self (.here hother))).1)
        hrelated hbelow
    · refine ihrest hamong.rest ?_ hrest (.intro rest ?_ ?_
        (.cons (hstitched.rest hattached hlocal) .nil))
      · intro other hother
        obtain ⟨pair, hpair, rfl⟩ := List.mem_map.1 hother
        rw [get?_attach_of_ne (hlocal pair hpair).symm]
        exact hones pair.1 (List.mem_cons_of_mem _ hother)
      · intro pair hpair
        have hpair' := hlooked pair (List.mem_cons_of_mem _ hpair)
        refine ⟨?_, hpair'.fetched, hpair'.page⟩
        have hsame := presentKeys_map_attach (hlocal pair hpair).symm none [whole] [row]
        rw [List.map_singleton] at hsame
        rw [hsame]
        exact hpair'.values
      · exact fun pair hpair => hcompleted pair (List.mem_cons_of_mem _ hpair)

/-- **Stitching is exact if and only if no slot hides a key.**  Relations with distinct fields are
loaded as described, for every storage that answers what it is asked, every projection and every
list of rows whose keys are keys, exactly when the keys are apart. -/
theorem keysApart_iff_stitched (hdistinct : FieldsDistinct loads) :
    KeysApart loads ↔
      ∀ (s : Storage) (defaultPerPage : Nat) (projection : Option Projection)
        (rows done : List Row), Answers s loads → RowsKeyed loads rows →
        (loadAll s defaultPerPage loads projection rows).outcome = .ok done →
        Stitched s defaultPerPage loads projection rows done
          (loadAll s defaultPerPage loads projection rows).calls := by
  constructor
  · intro hapart s defaultPerPage projection rows done hanswers hkeyed hdone
    exact stitched_of_loadAll hapart hdistinct hanswers hkeyed hdone
  · intro h
    obtain ⟨names, hamong⟩ := exists_keysAmong hdistinct
    have hones (load) (hload : load ∈ loads) :
        Entries.get? (rowOfOnes names) load.1.localKey = some one :=
      get?_rowOfOnes (hamong load (.here hload)).1
    obtain ⟨done, hdone⟩ := exists_loadAll_storageOfOnes 0 hdistinct [rowOfOnes names]
    obtain ⟨whole, rfl⟩ := List.length_eq_one_iff.1 (loadAll_frame hdone).length_eq.symm
    refine keysApart_of_stitched hdistinct hamong hones hdone
      (h _ _ _ _ _ (answers_storageOfOnes hamong) ?_ hdone)
    intro load hload row hrow v hv
    rw [List.mem_singleton.1 hrow] at hv
    rw [eq_one_of_get?_rowOfOnes hv]
    rfl

/-! ## A relation under the name of a foreign key -/

/-- Posts with their comments, each of which has its post under the name of the column that leads
to it. -/
def hidingProjection : Projection where
  table := some "posts"
  columns := ["posts.id"]
  expressions := []
  relations := [
    (⟨⟨"comments", "comments", some "comments", "id", "post_id", true⟩, "Comment", none, [], none⟩,
      { table := some "comments"
        columns := ["comments.body", "comments.post_id"]
        expressions := []
        relations := [
          (⟨⟨"post_id", "post_id", some "posts", "post_id", "id", false⟩, "Post", none, [], none⟩,
            ⟨some "posts", ["posts.title", "posts.id"], [], []⟩)] })]

/-- The relations of the projection are not always stitched exactly: the post of a comment hides
the key by which the comment is found. -/
theorem keysApart_iff_stitched_hiding :
    FieldsDistinct (hidingProjection.applyTo (.all "posts")).eagerLoads ∧
      ¬ ∀ (s : Storage) (defaultPerPage : Nat) (projection : Option Projection)
        (rows done : List Row),
        Answers s (hidingProjection.applyTo (.all "posts")).eagerLoads →
        RowsKeyed (hidingProjection.applyTo (.all "posts")).eagerLoads rows →
        (loadAll s defaultPerPage (hidingProjection.applyTo (.all "posts")).eagerLoads projection
          rows).outcome = .ok done →
        Stitched s defaultPerPage (hidingProjection.applyTo (.all "posts")).eagerLoads projection
          rows done (loadAll s defaultPerPage
            (hidingProjection.applyTo (.all "posts")).eagerLoads projection rows).calls := by
  have hdistinct : FieldsDistinct (hidingProjection.applyTo (.all "posts")).eagerLoads :=
    .cons (fun other hother => by cases hother)
      (.cons (fun other hother => by cases hother) .nil .nil) .nil
  refine ⟨hdistinct, fun h => ?_⟩
  have hapart := (keysApart_iff_stitched hdistinct).2 h
  cases hapart with
  | cons _ hforeign _ _ => exact hforeign _ List.mem_cons_self rfl

end Stitching

end GraphProjection
