import GraphProjection.Proofs.Paging.Requests
import Mathlib.Algebra.Group.Nat.Defs

/-!
# What envelopes say

An envelope holds numbers and cursors beside its items: where the page starts and ends, and where
the next one starts.  All of them are sums of words, and each sum stops at the largest word.  For a
request that arguments ask for the sums are small enough, so an envelope says the exact numbers
(`exact_envelope`), and the cursors that it hands out are accepted by whoever comes back with them
(`accepted_previousCursor`, `accepted_nextCursor`).

Main statement: `exact_of_ofArguments`, from the arguments to the envelope.
-/

namespace GraphProjection

/-! ## Reading an envelope -/

namespace Value

/-- What an object holds under a name. -/
def member? : Value → String → Option Value
  | .object members, name => Entries.get? members name
  | _, _ => none

/-- The items of an envelope. -/
def pageItems (page : Value) : List Value :=
  match page.member? "data" with
  | some (.array items) => items
  | _ => []

/-- Whether an envelope says that more pages follow. -/
def hasMorePages (page : Value) : Bool :=
  match page.member? "has_more_pages" with
  | some (.bool more) => more
  | _ => false

/-- The cursor that an envelope names for the page after it. -/
def nextCursor? (page : Value) : Option String :=
  match page.member? "next_cursor" with
  | some (.string cursor) => some cursor
  | _ => none

end Value

namespace PageRequest

section Members

variable {page : PageRequest} (rows : List Row) (total : Option Nat)

lemma member?_data : (page.envelope rows total).member? "data" =
    some (.array ((rows.take page.perPage).map .object)) := by
  rw [envelope]
  cases page.kind <;> rfl

/-- What an envelope of a page with a number says of its place among the others. -/
lemma member?_numbered (hkind : page.kind ≠ .cursor) :
    (page.envelope rows total).member? "from" =
      some (count? (page.firstPosition (rows.take page.perPage).length)) ∧
    (page.envelope rows total).member? "to" =
      some (count? (page.lastPosition (rows.take page.perPage).length)) ∧
    (page.envelope rows total).member? "has_more_pages" =
      some (.bool (page.hasMore rows total)) := by
  rw [envelope]
  cases h : page.kind with
  | offset | simple => exact ⟨rfl, rfl, rfl⟩
  | cursor => exact absurd h hkind

/-- What only an envelope with a total says. -/
lemma member?_counted (hkind : page.kind = .offset) :
    (page.envelope rows total).member? "total" =
      some (.int (total.getD (rows.take page.perPage).length)) ∧
    (page.envelope rows total).member? "per_page" = some (.int page.perPage) ∧
    (page.envelope rows total).member? "current_page" = some (.int page.currentPage) ∧
    (page.envelope rows total).member? "last_page" =
      some (.int (page.lastPage (total.getD (rows.take page.perPage).length))) := by
  rw [envelope, hkind]
  exact ⟨rfl, rfl, rfl, rfl⟩

lemma member?_previousCursor : (page.envelope rows total).member? "previous_cursor" =
    if page.kind = .cursor then some (cursor? page.previousOffset) else none := by
  rw [envelope]
  cases page.kind <;> rfl

lemma member?_nextCursor : (page.envelope rows total).member? "next_cursor" =
    if page.kind = .cursor then some (cursor? (page.nextOffset (page.hasMore rows total)))
    else none := by
  rw [envelope]
  cases page.kind <;> rfl

end Members

/-! ## Exact sums -/

/-- A request within the words that hold it. -/
structure InRange (page : PageRequest) : Prop where
  perPage_le : page.perPage ≤ maxSize
  offset_le : page.offset ≤ maxOffset

lemma AskedFor.inRange {kind : PageKind} {arguments : Arguments} {defaultPerPage : Nat}
    {page : PageRequest} (h : AskedFor kind arguments defaultPerPage page)
    (hdefault : defaultPerPage ≤ maxSize) : page.InRange :=
  ⟨h.size.le_maxSize hdefault, h.offset_le⟩

/-- The members of an envelope that are sums, with the exact sums. -/
structure Exact (page : PageRequest) (rows : List Row) (envelope : Value) : Prop where
  first : page.kind ≠ .cursor → envelope.member? "from" =
    some (if rows.take page.perPage = [] then .null else .int (page.offset + 1 : Nat))
  last : page.kind ≠ .cursor → envelope.member? "to" =
    some (if rows.take page.perPage = [] then .null
      else .int (page.offset + (rows.take page.perPage).length : Nat))
  next : page.kind = .cursor → envelope.member? "next_cursor" =
    some (if page.perPage < rows.length ∧ page.offset + page.perPage ≤ maxOffset then
      .string (Cursor.encode (page.offset + page.perPage)) else .null)

section Sums

variable {page : PageRequest}

lemma InRange.add_le (h : page.InRange) {n : Nat} (hn : n ≤ maxSize) :
    page.offset + n ≤ maxCount :=
  (Nat.add_le_add h.offset_le hn).trans (by decide)

/-- A sum of an offset and a size does not stop early. -/
lemma InRange.satAdd_eq (h : page.InRange) {n : Nat} (hn : n ≤ maxSize) :
    satAdd maxCount page.offset n = page.offset + n :=
  Nat.min_eq_left (h.add_le hn)

lemma count?_ite (p : Prop) [Decidable p] (n : Nat) :
    count? (if p then some n else none) = if p then .int n else .null := by
  split <;> rfl

lemma InRange.nextOffset_eq (h : page.InRange) (more : Bool) : page.nextOffset more =
    if more = true ∧ page.offset + page.perPage ≤ maxOffset then
      some (page.offset + page.perPage) else none := by
  rw [nextOffset, h.satAdd_eq h.perPage_le]
  by_cases hmore : more = true
  · simp [hmore, Option.filter]
  · simp [hmore]

/-- No sum in an envelope is cut off. -/
theorem InRange.exact_envelope (h : page.InRange) (rows : List Row) (total : Option Nat) :
    Exact page rows (page.envelope rows total) := by
  have hitems : (rows.take page.perPage).length ≤ maxSize :=
    (List.length_take_le _ _).trans h.perPage_le
  have hempty : 0 < (rows.take page.perPage).length ↔ ¬ rows.take page.perPage = [] :=
    List.length_pos_iff
  refine ⟨fun hkind => ?_, fun hkind => ?_, fun hkind => ?_⟩
  · rw [(member?_numbered rows total hkind).1, firstPosition, h.satAdd_eq (by decide), count?_ite]
    simp only [hempty, ite_not]
  · rw [(member?_numbered rows total hkind).2.1, lastPosition, h.satAdd_eq hitems, count?_ite]
    simp only [hempty, ite_not]
  · have hmore : page.hasMore rows total = decide (page.perPage < rows.length) := by
      rw [hasMore, hkind]
    rw [member?_nextCursor, if_pos hkind, h.nextOffset_eq, hmore]
    simp only [decide_eq_true_eq]
    split <;> rfl

end Sums

/-! ## Coming back with a cursor -/

/-- A cursor is accepted from whoever comes back with it: with any arguments beside it that ask for
a size, it leads to the page at an offset. -/
def Accepted (defaultPerPage : Nat) (cursor : String) (offset : Nat) : Prop :=
  ∀ arguments size, Asks GivesSize arguments "limit" defaultPerPage size →
    ofArguments .cursor (arguments.put "cursor" (.string cursor)) defaultPerPage =
      .ok ⟨.cursor, size, 1, offset⟩

lemma Asks.put_of_ne {Gives : Value → Nat → Prop} {arguments : Arguments} {name other : String}
    {fallback n : Nat} (h : Asks Gives arguments name fallback n) (hne : other ≠ name)
    (value : Value) : Asks Gives (arguments.put other value) name fallback n := by
  have hget := Entries.get?_put_of_ne arguments value hne
  cases h with
  | absent habsent =>
    refine .absent ?_
    rw [Absent, hget]
    exact habsent
  | given hvalue hgives => exact .given (hget.trans hvalue) hgives

lemma accepted_encode (defaultPerPage : Nat) {offset : Nat} (h : offset ≤ maxOffset) :
    Accepted defaultPerPage (Cursor.encode offset) offset := fun arguments _ hsize =>
  ofArguments_cursor (hsize.put_of_ne (by decide) _) (asks_put_cursor arguments h)

section Cursors

variable {page : PageRequest} {rows : List Row} {total : Option Nat} {cursor : String}

lemma cursor?_eq_string_iff {offset : Option Nat} :
    cursor? offset = .string cursor ↔
      ∃ start, offset = some start ∧ Cursor.encode start = cursor := by
  cases offset with
  | none => simp [cursor?]
  | some start => simp [cursor?]

/-- The previous cursor is that of the page before, or of the first one if there is less room. -/
lemma eq_encode_of_previousCursor
    (h : (page.envelope rows total).member? "previous_cursor" = some (.string cursor)) :
    page.kind = .cursor ∧ Cursor.encode (page.offset - page.perPage) = cursor := by
  rw [member?_previousCursor] at h
  split at h
  · next hkind =>
    obtain ⟨start, hstart, rfl⟩ := cursor?_eq_string_iff.1 (Option.some.inj h)
    rw [previousOffset] at hstart
    split at hstart
    · cases hstart
      exact ⟨hkind, rfl⟩
    · cases hstart
  · cases h

/-- The next cursor is that of the end of the page, which is no further than a cursor can say. -/
lemma InRange.eq_encode_of_nextCursor (hrange : page.InRange)
    (h : (page.envelope rows total).member? "next_cursor" = some (.string cursor)) :
    page.kind = .cursor ∧ page.offset + page.perPage ≤ maxOffset ∧
      Cursor.encode (page.offset + page.perPage) = cursor := by
  rw [member?_nextCursor] at h
  split at h
  · next hkind =>
    obtain ⟨start, hstart, rfl⟩ := cursor?_eq_string_iff.1 (Option.some.inj h)
    rw [hrange.nextOffset_eq] at hstart
    split at hstart
    · next hmore =>
      cases hstart
      exact ⟨hkind, hmore.2, rfl⟩
    · cases hstart
  · cases h

end Cursors

/-! ## From the arguments to the envelope -/

/-- **Page arithmetic is exact.**  The number of a page is never zero, so words suffice for the
offset, whether the request is accepted or not.  A request is accepted exactly if it is asked for,
and then it is in range; otherwise the reason is the number or the cursor that is refused.  What an
envelope says of an accepted request is exact, and its cursors are accepted in turn. -/
theorem exact_of_ofArguments {defaultPerPage : Nat} (hdefault : defaultPerPage ≤ 2 ^ 32 - 1)
    (kind : PageKind) (arguments : Arguments) :
    (∀ size number, Asks GivesSize arguments "limit" defaultPerPage size →
      Asks GivesSize arguments "page" 1 number → 1 ≤ number ∧
        (wordOffset (.ofNat number) (.ofNat size)).toNat = (number - 1) * size) ∧
    (∀ page, ofArguments kind arguments defaultPerPage = .ok page ↔
      AskedFor kind arguments defaultPerPage page) ∧
    (∀ argument, ofArguments kind arguments defaultPerPage = .error (.invalidArgument argument) ↔
      RefusesNumber kind arguments defaultPerPage ∧
        (argument = .limit ↔ Refused GivesSize arguments "limit")) ∧
    (ofArguments kind arguments defaultPerPage = .error .invalidCursor ↔
      RefusesCursor kind arguments) ∧
    ∀ page, ofArguments kind arguments defaultPerPage = .ok page →
      1 ≤ page.currentPage ∧ page.offset ≤ 2 ^ 63 - 1 ∧ page.perPage ≤ 2 ^ 32 - 1 ∧
      ∀ rows total, Exact page rows (page.envelope rows total) ∧
        (∀ cursor, (page.envelope rows total).member? "previous_cursor" = some (.string cursor) →
          Accepted defaultPerPage cursor (page.offset - page.perPage)) ∧
        ∀ cursor, (page.envelope rows total).member? "next_cursor" = some (.string cursor) →
          Accepted defaultPerPage cursor (page.offset + page.perPage) := by
  have hdefault' : defaultPerPage ≤ maxSize := hdefault
  refine ⟨fun size number hsize hnumber => ?_, fun page => ofArguments_eq_ok_iff,
    fun argument => ofArguments_eq_invalidArgument_iff, ofArguments_eq_invalidCursor_iff,
    fun page hpage => ?_⟩
  · have hpos := hnumber.pos le_rfl
    exact ⟨hpos, toNat_wordOffset hpos (hnumber.le_maxSize (by decide))
      (hsize.le_maxSize hdefault')⟩
  · have hasked := ofArguments_eq_ok_iff.1 hpage
    have hrange := hasked.inRange hdefault'
    refine ⟨hasked.one_le_currentPage, hrange.offset_le, hrange.perPage_le, fun rows total =>
      ⟨hrange.exact_envelope rows total, fun cursor hcursor => ?_, fun cursor hcursor => ?_⟩⟩
    · obtain ⟨-, rfl⟩ := eq_encode_of_previousCursor hcursor
      exact accepted_encode _ ((Nat.sub_le _ _).trans hrange.offset_le)
    · -- A next cursor is only given where the end of the page is not further than a cursor can say.
      obtain ⟨-, hnext, rfl⟩ := hrange.eq_encode_of_nextCursor hcursor
      exact accepted_encode _ hnext

/-- The largest size, number and cursor. -/
def largest : Arguments :=
  [("limit", .int maxSize), ("page", .int maxSize), ("cursor", .string (Cursor.encode maxOffset))]

/-- The largest page of the largest size is refused, and the largest cursor leads to a page whose
previous cursor is accepted. -/
theorem exact_of_ofArguments_largest :
    15 ≤ 2 ^ 32 - 1 ∧ RefusesNumber .offset largest 15 ∧
      ∃ page, ofArguments .cursor largest 15 = .ok page ∧
        Exact page [[]] (page.envelope [[]] none) ∧
        (page.envelope [[]] none).member? "previous_cursor" =
          some (.string (Cursor.encode (maxOffset - maxSize))) ∧
        Accepted 15 (Cursor.encode (maxOffset - maxSize)) (maxOffset - maxSize) := by
  have hrefused : ofArguments .offset largest 15 = .error (.invalidArgument .page) := rfl
  have hpage : ofArguments .cursor largest 15 = .ok ⟨.cursor, maxSize, 1, maxOffset⟩ :=
    ofArguments_cursor (.given rfl ⟨rfl, by decide, le_rfl⟩)
      (.given rfl ⟨_, rfl, Cursor.decode?_encode le_rfl⟩)
  have hprevious : (envelope ⟨.cursor, maxSize, 1, maxOffset⟩ [[]] none).member?
      "previous_cursor" = some (.string (Cursor.encode (maxOffset - maxSize))) := rfl
  have hdefault : 15 ≤ 2 ^ 32 - 1 := by decide
  obtain ⟨-, -, hnumber, -⟩ := exact_of_ofArguments hdefault .offset largest
  obtain ⟨-, -, -, -, henvelope⟩ := exact_of_ofArguments hdefault .cursor largest
  obtain ⟨-, -, -, hrows⟩ := henvelope _ hpage
  obtain ⟨hexact, haccepted, -⟩ := hrows [[]] none
  exact ⟨hdefault, ((hnumber .page).1 hrefused).1, _, hpage, hexact, hprevious,
    haccepted _ hprevious⟩

end PageRequest

end GraphProjection
