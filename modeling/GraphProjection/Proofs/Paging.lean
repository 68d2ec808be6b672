import GraphProjection.Execution
import GraphProjection.Proofs.Loading
import GraphProjection.Proofs.Paging.Envelopes
import Mathlib.Algebra.Order.Floor.Div
import Mathlib.Data.List.Range

/-!
# Walking from page to page

A client that wants every row asks for page after page: along the cursors that the pages hand out,
or by number for as long as a page says that more follow.  Main statement: `pages_enumerate_rows`.
Either walk comes to an end after as many pages as the rows fill, and no row is left out or given
twice; along the cursors every page also knows the way back to the one before it.

What a walk is does not depend on pages: it asks, and asks again with what the answer says follows
(`Walk`).  That a walk is the pages at the offsets `0`, `size`, `2 * size` and so on then comes down
to a fact about one page, `hasMore_answer`: it says that more follows exactly if rows are left
behind it, whichever of the three ways its kind has to find out.

The bounds are those of the words involved.  A page of the largest size would have no room for the
row that tells whether another page follows, so sizes stay below `maxSize`.
-/

namespace GraphProjection

/-! ## Walks -/

/-- The pages met on asking from a state on: each is the answer in its state and leads to the state
to ask in next, until one leads nowhere. -/
inductive Walk {σ : Type} (answer : σ → Except ExecutionError Value)
    (follow : σ → Value → Option σ) : σ → List Value → Prop
  | last {state : σ} {page : Value} (answered : answer state = .ok page)
    (ends : follow state page = none) : Walk answer follow state [page]
  | next {state after : σ} {page : Value} {pages : List Value}
    (answered : answer state = .ok page) (leads : follow state page = some after)
    (rest : Walk answer follow after pages) : Walk answer follow state (page :: pages)

namespace Walk

variable {σ : Type} {answer : σ → Except ExecutionError Value} {follow : σ → Value → Option σ}

/-- From a state there is at most one walk. -/
lemma unique {state : σ} {pages others : List Value} (h : Walk answer follow state pages)
    (h' : Walk answer follow state others) : others = pages := by
  induction h generalizing others with
  | last answered ends =>
    cases h' with
    | last answered' => rw [Except.ok.inj (answered.symm.trans answered')]
    | next answered' leads' =>
      rw [Except.ok.inj (answered.symm.trans answered'), leads'] at ends
      cases ends
  | next answered leads rest ih =>
    cases h' with
    | last answered' ends' =>
      rw [Except.ok.inj (answered.symm.trans answered'), ends'] at leads
      cases leads
    | next answered' leads' rest' =>
      obtain rfl := Except.ok.inj (answered.symm.trans answered')
      obtain rfl := Option.some.inj (leads.symm.trans leads')
      rw [ih rest']

/-- A walk from its steps. -/
lemma of_steps (state : Nat → σ) (page : Nat → Value) {final : Nat}
    (answered : ∀ i ≤ final, answer (state i) = .ok (page i))
    (leads : ∀ i < final, follow (state i) (page i) = some (state (i + 1)))
    (ends : follow (state final) (page final) = none) :
    Walk answer follow (state 0) ((List.range (final + 1)).map page) := by
  induction final generalizing state page with
  | zero => exact .last (answered 0 le_rfl) ends
  | succ n ih =>
    rw [List.range_succ_eq_map, List.map_cons, List.map_map]
    refine .next (answered 0 (Nat.zero_le _)) (leads 0 (Nat.succ_pos n)) ?_
    exact ih (state ∘ Nat.succ) (page ∘ Nat.succ)
      (fun i hi => answered (i + 1) (Nat.succ_le_succ hi))
      (fun i hi => leads (i + 1) (Nat.succ_lt_succ hi)) ends

end Walk

/-! ## Windows on rows -/

/-- One after the other, windows of one size show all rows up to where the last one ends. -/
lemma flatMap_windows {α : Type} (rows : List α) (size n : Nat) :
    (List.range n).flatMap (fun i => (rows.drop (i * size)).take size) =
      rows.take (n * size) := by
  induction n with
  | zero => simp
  | succ n ih =>
    rw [List.range_succ, List.flatMap_append, ih, List.flatMap_singleton, ← List.take_add,
      Nat.succ_mul]

/-- Of the windows that it takes to show rows, and at least one, the last is the first one behind
which there are no rows. -/
theorem exists_last_window (total : Nat) {size : Nat} (hsize : 0 < size) :
    ∃ last, max 1 (total ⌈/⌉ size) = last + 1 ∧ ∀ i, i * size + size < total ↔ i < last := by
  obtain ⟨last, hlast⟩ : ∃ last, max 1 (total ⌈/⌉ size) = last + 1 :=
    Nat.exists_eq_add_one.2 (by omega)
  refine ⟨last, hlast, fun i => ?_⟩
  have hceil : total ⌈/⌉ size ≤ i + 1 ↔ total ≤ size * (i + 1) := ceilDiv_le_iff_le_mul hsize
  rw [Nat.mul_succ, Nat.mul_comm size i] at hceil
  omega

/-- All windows up to the last one start within the rows, if there are any. -/
lemma mul_le_of_le_last {total size last : Nat}
    (hlast : ∀ i, i * size + size < total ↔ i < last) {i : Nat} (hi : i ≤ last) :
    i * size ≤ total := by
  cases i with
  | zero => rw [Nat.zero_mul]; exact Nat.zero_le total
  | succ i =>
    rw [Nat.succ_mul]
    exact ((hlast i).2 hi).le

namespace PageRequest

/-- The envelope that a request is answered with, given all the rows. -/
def answer (page : PageRequest) (rows : List Row) : Value :=
  page.envelope (Stitching.window page rows) (if page.needsTotal then some rows.length else none)

section Answer

variable {page : PageRequest} {rows : List Row}

/-- The row fetched beyond a page is cut off. -/
lemma take_window (hsize : page.perPage ≤ maxSize) :
    (Stitching.window page rows).take page.perPage =
      (rows.drop page.offset).take page.perPage := by
  have hlimit : page.perPage ≤ page.limit := by
    simp only [limit, satAdd]
    omega
  rw [Stitching.window, List.take_take, Nat.min_eq_left hlimit]

/-- The items of an answer are the rows of the page. -/
lemma pageItems_answer (hsize : page.perPage ≤ maxSize) :
    (page.answer rows).pageItems = ((rows.drop page.offset).take page.perPage).map .object := by
  rw [Value.pageItems, answer, member?_data, take_window hsize]

/-- However a kind finds out, more follows exactly if rows are left behind the page: as long as
there is room for the row that the kind looks at beyond it, and either its end or the rows can be
counted. -/
theorem hasMore_answer (hsize : page.kind ≠ .offset → page.perPage < maxSize)
    (hcount : page.offset + page.perPage ≤ maxCount ∨ rows.length ≤ maxCount) :
    page.hasMore (Stitching.window page rows) (if page.needsTotal then some rows.length else none) =
      decide (page.offset + page.perPage < rows.length) := by
  obtain ⟨kind, perPage, currentPage, offset⟩ := page
  simp only at hsize hcount
  cases kind with
  | offset =>
    have hsum : satAdd maxCount offset perPage < rows.length ↔
        offset + perPage < rows.length := by
      simp only [satAdd]
      omega
    exact decide_eq_decide.2 hsum
  | simple | cursor =>
    have hroom := hsize (by decide)
    have hlooked : perPage < ((rows.drop offset).take (satAdd maxSize perPage 1)).length ↔
        offset + perPage < rows.length := by
      simp only [List.length_take, List.length_drop, satAdd]
      omega
    exact decide_eq_decide.2 hlooked

lemma hasMorePages_answer (hkind : page.kind ≠ .cursor) (hsize : page.perPage < maxSize)
    (hrows : rows.length ≤ maxSize) : (page.answer rows).hasMorePages =
      decide (page.offset + page.perPage < rows.length) := by
  rw [Value.hasMorePages, answer, (member?_numbered _ _ hkind).2.2,
    hasMore_answer (fun _ => hsize) (.inr (hrows.trans (by decide)))]

lemma nextCursor_answer (hkind : page.kind = .cursor) (hsize : page.perPage < maxSize)
    (hrows : rows.length ≤ maxSize) : (page.answer rows).member? "next_cursor" =
      some (if page.offset + page.perPage < rows.length then
        .string (Cursor.encode (page.offset + page.perPage)) else .null) := by
  rw [answer, member?_nextCursor, if_pos hkind,
    hasMore_answer (fun _ => hsize) (.inr (hrows.trans (by decide)))]
  by_cases hmore : page.offset + page.perPage < rows.length
  · have hcount : page.offset + page.perPage ≤ maxCount := by
      simp only [maxSize, maxCount] at *
      omega
    have hoffset : page.offset + page.perPage ≤ maxOffset := by
      simp only [maxSize, maxOffset] at *
      omega
    simp [nextOffset, cursor?, hmore, satAdd, Nat.min_eq_left hcount, Option.filter, hoffset]
  · simp [nextOffset, cursor?, hmore]

lemma previousCursor_answer (hkind : page.kind = .cursor) :
    (page.answer rows).member? "previous_cursor" =
      some (if 0 < page.offset then .string (Cursor.encode (page.offset - page.perPage))
        else .null) := by
  rw [answer, member?_previousCursor, if_pos hkind, previousOffset]
  split <;> rfl

end Answer

/-! ## The pages that rows fill -/

/-- The request for a page, counted from zero. -/
def nth (kind : PageKind) (size i : Nat) : PageRequest :=
  ⟨kind, size, if kind = .cursor then 1 else i + 1, i * size⟩

/-- The pages that rows fill, or a single empty one. -/
def pages (kind : PageKind) (size : Nat) (rows : List Row) : List Value :=
  (List.range (max 1 (rows.length ⌈/⌉ size))).map fun i => (nth kind size i).answer rows

section Pages

variable {kind : PageKind} {size : Nat} {rows : List Row}

lemma length_pages : (pages kind size rows).length = max 1 (rows.length ⌈/⌉ size) := by
  rw [pages, List.length_map, List.length_range]

lemma flatMap_pageItems_pages (hpos : 0 < size) (hsize : size ≤ maxSize) :
    (pages kind size rows).flatMap Value.pageItems = rows.map .object := by
  have hitems : ∀ i, ((nth kind size i).answer rows).pageItems =
      ((rows.drop (i * size)).take size).map .object := fun i => pageItems_answer hsize
  obtain ⟨last, hcount, hlast⟩ := exists_last_window rows.length hpos
  have hall : rows.length ≤ (last + 1) * size := by
    rw [Nat.succ_mul]
    exact Nat.not_lt.1 (mt (hlast last).1 (Nat.lt_irrefl last))
  calc (pages kind size rows).flatMap Value.pageItems
      = ((List.range (last + 1)).flatMap fun i => (rows.drop (i * size)).take size).map
          .object := by
        rw [pages, hcount, List.flatMap_map, List.map_flatMap]
        simp only [hitems]
    _ = rows.map .object := by rw [flatMap_windows, List.take_of_length_le hall]

lemma previousCursor_head_pages (hpos : 0 < size) :
    ∀ page ∈ (pages .cursor size rows).head?, page.member? "previous_cursor" = some .null := by
  obtain ⟨last, hcount, -⟩ := exists_last_window rows.length hpos
  have hstart : ¬ 0 < 0 * size := by simp
  rw [pages, hcount, List.range_succ_eq_map]
  rintro _ ⟨⟩
  rw [previousCursor_answer rfl, nth, if_neg hstart]

lemma nextCursor_last_pages (hpos : 0 < size) (hsize : size < maxSize)
    (hrows : rows.length ≤ maxSize) :
    ∀ page ∈ (pages .cursor size rows).getLast?, page.member? "next_cursor" = some .null := by
  obtain ⟨last, hcount, hlast⟩ := exists_last_window rows.length hpos
  have hend : ¬ last * size + size < rows.length := mt (hlast last).1 (Nat.lt_irrefl last)
  rw [pages, hcount, List.range_succ, List.map_append, List.map_singleton, List.getLast?_concat]
  rintro _ ⟨⟩
  rw [nextCursor_answer rfl hsize hrows, nth, if_neg hend]

end Pages

end PageRequest

namespace Schema

/-! ## Walks of a root field -/

/-- What fetching for a prepared field makes of limits and offsets: there are `rows` to show, as
they are once their relations are loaded, and a fetch shows a window of them. -/
structure Windows (s : Schema) (storage : Storage) (p : Prepared) (rows : List Row) : Prop where
  count : storage.count p.query = .ok rows.length
  fetch : ∀ limit offset,
    (s.fetchRows storage p ((p.query.withLimit limit).withOffset offset) id).outcome =
      .ok ((rows.drop offset).take limit)

/-- A storage that applies limits and offsets is enough where no relations are loaded. -/
lemma windows_of_storage {s : Schema} {storage : Storage} {p : Prepared} {rows : List Row}
    (hcount : storage.count p.query = .ok rows.length)
    (hfetch : ∀ limit offset, storage.fetch ((p.query.withLimit limit).withOffset offset) =
      .ok ((rows.drop offset).take limit))
    (hloads : p.query.eagerLoads = []) : s.Windows storage p rows := by
  refine ⟨hcount, fun limit offset => ?_⟩
  have hwindow : (storage.traceFetch ((p.query.withLimit limit).withOffset offset)).outcome =
      .ok ((rows.drop offset).take limit) := by
    rw [Storage.traceFetch, hfetch]
    rfl
  have hnone : ((p.query.withLimit limit).withOffset offset).eagerLoads = [] := hloads
  rw [fetchRows, Traced.outcome_andThen_of_ok hwindow, Stitching.loadQuery_eq, hnone]
  rfl

/-- The page that a root field answers arguments with. -/
def pageOutcome (s : Schema) (storage : Storage) (p : Prepared) (kind : PageKind)
    (arguments : Arguments) : Except ExecutionError Value :=
  (s.fetchPage storage p kind arguments).outcome

/-- A walk along the cursors: the next cursor of a page is given back as the `cursor` argument. -/
def CursorWalk (s : Schema) (storage : Storage) (p : Prepared) : Arguments → List Value → Prop :=
  Walk (s.pageOutcome storage p .cursor) fun arguments page =>
    page.nextCursor?.map fun cursor => arguments.put "cursor" (.string cursor)

/-- A walk by number: while a page says that there are more, the next number is asked for. -/
def NumberedWalk (s : Schema) (storage : Storage) (p : Prepared) (kind : PageKind)
    (arguments : Arguments) : Nat → List Value → Prop :=
  Walk (fun number => s.pageOutcome storage p kind (arguments.put "page" (.int number)))
    fun number page => if page.hasMorePages then some (number + 1) else none

/-- The previous cursor of a page leads back to an earlier one. -/
def LeadsBack (s : Schema) (storage : Storage) (p : Prepared) (arguments : Arguments)
    (earlier page : Value) : Prop :=
  ∃ cursor, page.member? "previous_cursor" = some (.string cursor) ∧
    s.pageOutcome storage p .cursor (arguments.put "cursor" (.string cursor)) = .ok earlier

section Pages

variable {s : Schema} {storage : Storage} {p : Prepared} {rows : List Row}

lemma Windows.pageOutcome_eq (hw : s.Windows storage p rows) {kind : PageKind}
    {arguments : Arguments} {page : PageRequest}
    (hpage : PageRequest.ofArguments kind arguments s.registry.settings.defaultPerPage =
      .ok page) : s.pageOutcome storage p kind arguments = .ok (page.answer rows) := by
  have htotal : (fetchTotal storage page p.query).outcome =
      .ok (if page.needsTotal then some rows.length else none) := by
    rw [fetchTotal]
    split
    · simp [Storage.traceCount, Storage.answered, hw.count, Traced.andThen, Traced.pure,
        Traced.ofExcept]
    · rfl
  rw [pageOutcome, fetchPage, hpage]
  simp only
  rw [Traced.outcome_andThen_of_ok htotal, Traced.outcome_andThen_of_ok (hw.fetch _ _)]
  rfl

variable {given : Arguments} {size : Nat}

/-- The arguments of the pages of a walk along the cursors. -/
def cursorArguments (given : Arguments) (size : Nat) : Nat → Arguments
  | 0 => given
  | i + 1 => (cursorArguments given size i).put "cursor"
      (.string (Cursor.encode (i * size + size)))

lemma get?_limit_cursorArguments (i : Nat) :
    (cursorArguments given size i).get? "limit" = given.get? "limit" := by
  induction i with
  | zero => rfl
  | succ i ih => rw [cursorArguments, Entries.get?_put_of_ne _ _ (by decide), ih]

lemma asks_cursorArguments (hstart : PageRequest.Absent given "cursor") {i : Nat}
    (hi : i * size ≤ maxOffset) :
    PageRequest.Asks PageRequest.GivesOffset (cursorArguments given size i) "cursor" 0
      (i * size) := by
  cases i with
  | zero => rw [Nat.zero_mul]; exact .absent hstart
  | succ i =>
    rw [Nat.succ_mul] at hi ⊢
    exact PageRequest.asks_put_cursor _ hi

/-- Along the cursors, the pages that the rows fill are met one after the other. -/
lemma Windows.cursorWalk (hw : s.Windows storage p rows) (hrows : rows.length ≤ maxSize)
    (hlimit : given.get? "limit" = some (.int size)) (hpos : 0 < size) (hsize : size < maxSize)
    (hstart : given.get? "cursor" = none ∨ given.get? "cursor" = some .null) :
    s.CursorWalk storage p given (PageRequest.pages .cursor size rows) := by
  obtain ⟨last, hcount, hlast⟩ := exists_last_window rows.length hpos
  have hmax : rows.length ≤ maxOffset := hrows.trans (by decide)
  have hcursor : ∀ i, ((PageRequest.nth .cursor size i).answer rows).member? "next_cursor" =
      some (if i * size + size < rows.length then .string (Cursor.encode (i * size + size))
        else .null) := fun i => PageRequest.nextCursor_answer rfl hsize hrows
  rw [PageRequest.pages, hcount]
  refine Walk.of_steps (cursorArguments given size) _ (fun i hi => ?_) (fun i hi => ?_) ?_
  · have hoffset : i * size ≤ maxOffset := (mul_le_of_le_last hlast hi).trans hmax
    have hlimit' : (cursorArguments given size i).get? "limit" = some (.int size) := by
      rw [get?_limit_cursorArguments, hlimit]
    exact hw.pageOutcome_eq (PageRequest.ofArguments_cursor
      (.given hlimit' ⟨rfl, hpos, hsize.le⟩) (asks_cursorArguments hstart hoffset))
  · rw [Value.nextCursor?, hcursor, if_pos ((hlast i).2 hi)]
    rfl
  · rw [Value.nextCursor?, hcursor, if_neg (mt (hlast last).1 (Nat.lt_irrefl last))]
    rfl

/-- And by number, from the first one on. -/
lemma Windows.numberedWalk (hw : s.Windows storage p rows) (hrows : rows.length ≤ maxSize)
    (hlimit : given.get? "limit" = some (.int size)) (hpos : 0 < size) (hsize : size < maxSize)
    {kind : PageKind} (hkind : kind ≠ .cursor) :
    s.NumberedWalk storage p kind given 1 (PageRequest.pages kind size rows) := by
  obtain ⟨last, hcount, hlast⟩ := exists_last_window rows.length hpos
  have hmax : rows.length ≤ maxOffset := hrows.trans (by decide)
  have hmore : ∀ i, ((PageRequest.nth kind size i).answer rows).hasMorePages =
      decide (i < last) := by
    intro i
    rw [PageRequest.hasMorePages_answer hkind hsize hrows, decide_eq_decide]
    exact hlast i
  rw [PageRequest.pages, hcount]
  -- Steps are counted from zero and pages from one.
  refine Walk.of_steps (fun i => i + 1) _ (fun i hi => ?_) (fun i hi => ?_) ?_
  · have hwithin : i * size ≤ rows.length := mul_le_of_le_last hlast hi
    have hnumber : i + 1 ≤ maxSize := by
      cases i with
      | zero => decide
      | succ i =>
        have hbehind := (hlast i).2 hi
        have hone : i ≤ i * size := Nat.le_mul_of_pos_right i hpos
        omega
    have hlimit' : (given.put "page" (.int (i + 1 : Nat))).get? "limit" = some (.int size) := by
      rw [Entries.get?_put_of_ne _ _ (by decide), hlimit]
    have hpage : (given.put "page" (.int (i + 1 : Nat))).get? "page" =
        some (.int (i + 1 : Nat)) := Entries.get?_put_self _ _ _
    have hoffset : (i + 1 - 1) * size ≤ maxOffset := by
      rw [Nat.add_sub_cancel]
      exact hwithin.trans hmax
    have hrequest := hw.pageOutcome_eq (PageRequest.ofArguments_numbered hkind
      (.given hlimit' ⟨rfl, hpos, hsize.le⟩) (.given hpage ⟨rfl, Nat.succ_pos i, hnumber⟩)
      hoffset)
    rw [hrequest, PageRequest.nth, if_neg hkind, Nat.add_sub_cancel]
  · rw [hmore, decide_eq_true hi, if_pos rfl]
  · rw [hmore, decide_eq_false (Nat.lt_irrefl last), if_neg Bool.false_ne_true]

/-- The previous cursor of a page leads back to the page before it. -/
lemma Windows.isChain_leadsBack (hw : s.Windows storage p rows)
    (hrows : rows.length ≤ maxSize) (hlimit : given.get? "limit" = some (.int size))
    (hpos : 0 < size) (hsize : size < maxSize) :
    (PageRequest.pages .cursor size rows).IsChain (s.LeadsBack storage p given) := by
  obtain ⟨last, hcount, hlast⟩ := exists_last_window rows.length hpos
  have hmax : rows.length ≤ maxOffset := hrows.trans (by decide)
  rw [PageRequest.pages, hcount, List.isChain_map, List.isChain_range_succ]
  intro i hi
  have hback : (i + 1) * size - size = i * size := by rw [Nat.succ_mul, Nat.add_sub_cancel]
  refine ⟨Cursor.encode (i * size), ?_, ?_⟩
  · rw [PageRequest.previousCursor_answer rfl]
    simp only [PageRequest.nth, hback, if_pos (Nat.mul_pos (Nat.succ_pos i) hpos)]
  · have hlimit' : (given.put "cursor" (.string (Cursor.encode (i * size)))).get? "limit" =
        some (.int size) := by
      rw [Entries.get?_put_of_ne _ _ (by decide), hlimit]
    exact hw.pageOutcome_eq (PageRequest.ofArguments_cursor
      (.given hlimit' ⟨rfl, hpos, hsize.le⟩)
      (PageRequest.asks_put_cursor given ((mul_le_of_le_last hlast hi.le).trans hmax)))

/-- **Either walk shows every row once.**  For any page size with room for one more row, and any
number of rows that a page number can count: along the cursors and, for the kinds with numbers, by
number there is exactly one walk, it has as many pages as the rows fill, one if there are none, and
the items of its pages are the rows.  Along the cursors the first page has no previous cursor, the
last no next one, and the previous cursor of every other page leads back to the page before. -/
theorem pages_enumerate_rows (hw : s.Windows storage p rows) (hrows : rows.length ≤ 2 ^ 32 - 1)
    (hlimit : given.get? "limit" = some (.int size)) (hpos : 1 ≤ size)
    (hsize : size ≤ 2 ^ 32 - 2) :
    (given.get? "cursor" = none ∨ given.get? "cursor" = some .null →
      ∃ pages, (∀ others, s.CursorWalk storage p given others ↔ others = pages) ∧
        pages.length = max 1 (rows.length ⌈/⌉ size) ∧
        pages.flatMap Value.pageItems = rows.map .object ∧
        (∀ page ∈ pages.head?, page.member? "previous_cursor" = some .null) ∧
        (∀ page ∈ pages.getLast?, page.member? "next_cursor" = some .null) ∧
        pages.IsChain (s.LeadsBack storage p given)) ∧
    ∀ kind ≠ PageKind.cursor,
      ∃ pages, (∀ others, s.NumberedWalk storage p kind given 1 others ↔ others = pages) ∧
        pages.length = max 1 (rows.length ⌈/⌉ size) ∧
        pages.flatMap Value.pageItems = rows.map .object := by
  have hrows' : rows.length ≤ maxSize := hrows
  have hsize' : size < maxSize := Nat.lt_of_le_of_lt hsize (by decide)
  refine ⟨fun hstart => ?_, fun kind hkind => ?_⟩
  · have hwalk := hw.cursorWalk hrows' hlimit hpos hsize' hstart
    refine ⟨_, fun others => ⟨hwalk.unique, fun h => h ▸ hwalk⟩, PageRequest.length_pages,
      PageRequest.flatMap_pageItems_pages hpos hsize'.le,
      PageRequest.previousCursor_head_pages hpos,
      PageRequest.nextCursor_last_pages hpos hsize' hrows',
      hw.isChain_leadsBack hrows' hlimit hpos hsize'⟩
  · have hwalk := hw.numberedWalk hrows' hlimit hpos hsize' hkind
    exact ⟨_, fun others => ⟨hwalk.unique, fun h => h ▸ hwalk⟩, PageRequest.length_pages,
      PageRequest.flatMap_pageItems_pages hpos hsize'.le⟩

end Pages

/-- A storage of one table, which applies limits and offsets. -/
def tableStorage (rows : List Row) : Storage where
  count _ := .ok rows.length
  fetch query := .ok ((rows.drop (query.offset.getD 0)).take (query.limit.getD rows.length))

/-- A schema that fixes no more than the settings. -/
def bare : Schema := ⟨⟨{}, []⟩, fun _ => none, []⟩

/-- The query of all issues. -/
def allIssues : Prepared := ⟨.ofTable "issues", .all "issues"⟩

/-- Five issues. -/
def issues : List Row := ["a", "b", "c", "d", "e"].map fun id => [("id", .string id)]

/-- Five issues fill three pages of two, along the cursors and by number. -/
theorem pages_enumerate_rows_issues :
    (∃ pages, bare.CursorWalk (tableStorage issues) allIssues [("limit", .int 2)] pages ∧
      pages.length = 3 ∧ pages.flatMap Value.pageItems = issues.map .object) ∧
    ∃ pages, bare.NumberedWalk (tableStorage issues) allIssues .offset [("limit", .int 2)] 1 pages ∧
      pages.length = 3 ∧ pages.flatMap Value.pageItems = issues.map .object := by
  have hw : bare.Windows (tableStorage issues) allIssues issues :=
    windows_of_storage rfl (fun _ _ => rfl) rfl
  have hcount : max 1 (issues.length ⌈/⌉ 2) = 3 := by decide
  have hlimit : Entries.get? ([("limit", .int 2)] : Arguments) "limit" =
      some (.int (2 : Nat)) := rfl
  have henumerate := pages_enumerate_rows hw (by decide) hlimit (by decide) (by decide)
  obtain ⟨pages, hwalk, hlength, hitems, -⟩ := henumerate.1 (.inl rfl)
  obtain ⟨numbered, hnumbered, hlength', hitems'⟩ := henumerate.2 .offset (by decide)
  exact ⟨⟨pages, (hwalk pages).2 rfl, hlength.trans hcount, hitems⟩,
    ⟨numbered, (hnumbered numbered).2 rfl, hlength'.trans hcount, hitems'⟩⟩

end Schema

end GraphProjection
