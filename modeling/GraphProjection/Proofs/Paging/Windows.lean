import GraphProjection.Proofs.Paging
import Mathlib.Order.Bounds.Basic

/-!
# Pages as windows on rows

A page is a window on the rows that match.  A root field leaves it to the storage to cut the window
out and, where the kind wants it, to count the rows; a relation has all its rows in memory, and
cuts and counts itself.  Neither they nor the three kinds of page can be told apart by what they
show of the same rows: `shows_window`.

A page with a number also says how many pages there are.  What its envelope says then fits
together, on the last page, on a page behind it and where there are no rows: `metaFields_of_offset`.
-/

namespace GraphProjection

namespace PageRequest

/-! ## What an envelope shows of rows -/

/-- The rows of a page among all of them. -/
def shown (page : PageRequest) (rows : List Row) : List Row :=
  (rows.drop page.offset).take page.perPage

section Shown

variable {page : PageRequest} {rows : List Row}

lemma length_shown :
    (page.shown rows).length = min page.perPage (rows.length - page.offset) := by
  rw [shown, List.length_take, List.length_drop]

lemma shown_eq_nil_iff (hpos : 1 ≤ page.perPage) :
    page.shown rows = [] ↔ rows.length ≤ page.offset := by
  rw [← List.length_eq_zero_iff, length_shown]
  omega

/-- A page that starts among the rows, and behind whose end there are none, ends with the last. -/
lemma offset_add_length_shown (hstart : page.offset < rows.length)
    (hend : rows.length ≤ page.offset + page.perPage) :
    page.offset + (page.shown rows).length = rows.length := by
  rw [length_shown]
  omega

end Shown

/-- What an envelope shows of rows: those of the page and where they stand, and whether there are
rows behind it, as far as a cursor can say where. -/
structure Shows (page : PageRequest) (rows : List Row) (envelope : Value) : Prop where
  data : envelope.member? "data" = some (.array ((page.shown rows).map .object))
  first : page.kind ≠ .cursor → envelope.member? "from" =
    some (if page.shown rows = [] then .null else .int (page.offset + 1 : Nat))
  last : page.kind ≠ .cursor → envelope.member? "to" =
    some (if page.shown rows = [] then .null
      else .int (page.offset + (page.shown rows).length : Nat))
  more : page.kind ≠ .cursor → envelope.member? "has_more_pages" =
    some (.bool (decide (page.offset + page.perPage < rows.length)))
  next : page.kind = .cursor → page.offset + page.perPage ≤ maxOffset →
    envelope.member? "next_cursor" = some (if page.offset + page.perPage < rows.length then
      .string (Cursor.encode (page.offset + page.perPage)) else .null)

/-- Whether an envelope indicates a further page: a cursor page by naming its cursor. -/
def saysMore (page : PageRequest) (envelope : Value) : Bool :=
  match page.kind with
  | .offset | .simple => envelope.hasMorePages
  | .cursor => envelope.nextCursor?.isSome

section Shows

variable {page : PageRequest} {rows : List Row} {envelope : Value}

/-- An answer shows what there is. -/
lemma InRange.shows_answer (h : page.InRange) (hsize : page.kind ≠ .offset →
    page.perPage < maxSize) (rows : List Row) : page.Shows rows (page.answer rows) := by
  have hexact := h.exact_envelope (Stitching.window page rows)
    (if page.needsTotal then some rows.length else none)
  have hshown : (Stitching.window page rows).take page.perPage = page.shown rows :=
    take_window h.perPage_le
  have hcount : page.offset + page.perPage ≤ maxCount ∨ rows.length ≤ maxCount :=
    .inl (h.add_le h.perPage_le)
  refine ⟨?_, fun hkind => ?_, fun hkind => ?_, fun hkind => ?_, fun hkind hoffset => ?_⟩
  · rw [answer, member?_data, hshown]
  · rw [answer, hexact.first hkind, hshown]
  · rw [answer, hexact.last hkind, hshown]
  · rw [answer, (member?_numbered _ _ hkind).2.2, hasMore_answer hsize hcount]
  · rw [answer, member?_nextCursor, if_pos hkind, hasMore_answer hsize hcount, h.nextOffset_eq]
    simp only [decide_eq_true_eq, hoffset, and_true]
    split <;> rfl

lemma Shows.saysMore_eq (h : page.Shows rows envelope)
    (hoffset : page.offset + page.perPage ≤ maxOffset) :
    page.saysMore envelope = decide (page.offset + page.perPage < rows.length) := by
  rw [saysMore]
  cases hkind : page.kind with
  | offset | simple =>
    simp only
    rw [Value.hasMorePages, h.more (by rw [hkind]; decide)]
  | cursor =>
    simp only
    rw [Value.nextCursor?, h.next hkind hoffset]
    by_cases hmore : page.offset + page.perPage < rows.length
    · rw [if_pos hmore, decide_eq_true hmore]
      rfl
    · rw [if_neg hmore, decide_eq_false hmore]
      rfl

/-- Pages of the same window show the same, whatever their kinds. -/
lemma Shows.alike {other : PageRequest} {envelope' : Value} (h : page.Shows rows envelope)
    (h' : other.Shows rows envelope') (hsize : other.perPage = page.perPage)
    (hoffset : other.offset = page.offset) :
    envelope'.member? "data" = envelope.member? "data" ∧
    (page.kind ≠ .cursor → other.kind ≠ .cursor →
      ∀ name ∈ ["from", "to", "has_more_pages"],
        envelope'.member? name = envelope.member? name) ∧
    (page.offset + page.perPage ≤ maxOffset →
      other.saysMore envelope' = page.saysMore envelope) := by
  have hshown : other.shown rows = page.shown rows := by
    rw [shown, shown, hsize, hoffset]
  refine ⟨?_, fun hkind hkind' => ?_, fun hmax => ?_⟩
  · rw [h'.data, h.data, hshown]
  · have hfrom : envelope'.member? "from" = envelope.member? "from" := by
      rw [h'.first hkind', h.first hkind, hshown, hoffset]
    have hto : envelope'.member? "to" = envelope.member? "to" := by
      rw [h'.last hkind', h.last hkind, hshown, hoffset]
    have hmore : envelope'.member? "has_more_pages" = envelope.member? "has_more_pages" := by
      rw [h'.more hkind', h.more hkind, hoffset, hsize]
    simp [hfrom, hto, hmore]
  · have hmax' : other.offset + other.perPage ≤ maxOffset := by rw [hoffset, hsize]; exact hmax
    rw [h'.saysMore_eq hmax', h.saysMore_eq hmax, hoffset, hsize]

end Shows

/-! ## Relations in pages -/

/-- A relation attaches the same page of rows that a root field answers with. -/
lemma attachedValue_eq_answer (target : RelationTarget) (page : PageRequest) (rows : List Row) :
    Stitching.attachedValue target (some page) rows = page.answer rows := by
  obtain ⟨kind, perPage, currentPage, offset⟩ := page
  cases kind <;> rfl

lemma relationPage_eq {entry : RelationEntry} {kind : PageKind} {defaultPerPage : Nat}
    {page : PageRequest} (hkind : entry.page = some kind)
    (hpage : ofArguments kind entry.arguments defaultPerPage = .ok page) :
    Stitching.relationPage (some entry) defaultPerPage = .ok (some page) := by
  simp only [Stitching.relationPage, Option.bind_some, hkind, Option.map_some, hpage]
  rfl

/-- **A page shows the window that it is.**  What is shown of rows is the same for all rows that
match, however many: the answer to a request shows them; a root field gives that answer when the
storage counts the rows and cuts out the window; a relation among others attaches that answer to
every parent, for the rows that match it; and a request of any other kind for the same window is
answered alike. -/
theorem shows_window {kind : PageKind} {arguments : Arguments} {defaultPerPage : Nat}
    {page : PageRequest} (hpage : ofArguments kind arguments defaultPerPage = .ok page)
    (hsize : page.perPage ≤ 2 ^ 32 - 2) :
    (∀ rows, page.Shows rows (page.answer rows)) ∧
    (∀ (s : Schema) storage p rows, s.registry.settings.defaultPerPage = defaultPerPage →
      s.Windows storage p rows →
      s.pageOutcome storage p kind arguments = .ok (page.answer rows)) ∧
    (∀ (s : Storage) before target query after (projection : Option Projection) entry below rows
      done, projection.bind (·.relation? target.field) = some (entry, below) →
      entry.page = some kind → entry.arguments = arguments →
      (∀ load ∈ after, load.1.field ≠ target.field) →
      (Stitching.loadAll s defaultPerPage (before ++ (target, query) :: after) projection
        rows).outcome = .ok done →
      ∃ parents fetched related,
        (Stitching.loadAll s defaultPerPage before projection rows).outcome = .ok parents ∧
        s.fetch (Stitching.relatedQuery target query parents) = .ok fetched ∧
        (Stitching.loadAll s defaultPerPage query.eagerLoads (some below) fetched).outcome =
          .ok related ∧
        List.Forall₂ (fun parent row => Entries.get? row target.field =
          some (page.answer (Stitching.matching target related parent))) parents done) ∧
    ∀ kind' arguments' defaultPerPage' other,
      ofArguments kind' arguments' defaultPerPage' = .ok other →
      other.perPage = page.perPage → other.offset = page.offset → ∀ rows,
      (other.answer rows).member? "data" = (page.answer rows).member? "data" ∧
      (page.kind ≠ .cursor → other.kind ≠ .cursor →
        ∀ name ∈ ["from", "to", "has_more_pages"],
          (other.answer rows).member? name = (page.answer rows).member? name) ∧
      (page.offset + page.perPage ≤ maxOffset →
        other.saysMore (other.answer rows) = page.saysMore (page.answer rows)) := by
  have hroom : page.perPage < maxSize := Nat.lt_of_le_of_lt hsize (by decide)
  have hrange : page.InRange := ⟨hroom.le, (ofArguments_eq_ok_iff.1 hpage).offset_le⟩
  have hshows := hrange.shows_answer fun _ => hroom
  refine ⟨hshows, ?_, ?_, ?_⟩
  · rintro s storage p rows rfl hwindows
    exact hwindows.pageOutcome_eq hpage
  · rintro s before target query after projection entry below rows done hentry hkind rfl hafter
      hdone
    obtain ⟨parents, fetched, related, attached, hparents, hfetched, hrelated, hattached, hslots⟩ :=
      Stitching.loadAll_split hdone hafter
    rw [hentry] at hrelated hattached
    -- The page that the relation attaches is read from the same arguments, so it is this one.
    obtain rfl : some page = attached :=
      Except.ok.inj ((relationPage_eq hkind hpage).symm.trans hattached)
    simp only [attachedValue_eq_answer] at hslots
    exact ⟨parents, fetched, related, hparents, hfetched, hrelated, hslots⟩
  · intro kind' arguments' defaultPerPage' other hother hsize' hoffset rows
    have hroom' : other.perPage < maxSize := hsize'.trans_lt hroom
    have hrange' : other.InRange := ⟨hroom'.le, (ofArguments_eq_ok_iff.1 hother).offset_le⟩
    exact (hshows rows).alike (hrange'.shows_answer (fun _ => hroom') rows) hsize' hoffset

/-- The issues, all of one project. -/
def projectIssues : List Row := Schema.issues.map fun issue => issue ++ [("project_id", .int 1)]

/-- The issues of a project. -/
def issuesTarget : RelationTarget := ⟨"issues", "issues", some "issues", "id", "project_id", true⟩

/-- The second two. -/
def secondTwo : Arguments := [("limit", .int 2), ("page", .int 2)]

/-- Projects with two of their issues each. -/
def projectsProjection : Projection where
  table := some "projects"
  columns := ["projects.id"]
  expressions := []
  relations :=
    [(⟨issuesTarget, "Issue", some .simple, secondTwo, none⟩, ⟨some "issues", [], [], []⟩)]

/-- A root field and a relation show the same two issues. -/
theorem shows_window_projectIssues :
    ∃ page, ofArguments .simple secondTwo 15 = .ok page ∧ page.perPage ≤ 2 ^ 32 - 2 ∧
      page.Shows projectIssues (page.answer projectIssues) ∧
      Schema.bare.pageOutcome (Schema.tableStorage projectIssues) Schema.allIssues .simple
        secondTwo = .ok (page.answer projectIssues) ∧
      ∃ done, (Stitching.loadAll (Schema.tableStorage projectIssues) 15
          [(issuesTarget, .all "issues")] (some projectsProjection)
          [[("id", .int 1)]]).outcome = .ok [done] ∧
        done.get? "issues" = some (page.answer projectIssues) := by
  have hpage : ofArguments .simple secondTwo 15 = .ok ⟨.simple, 2, 2, 2⟩ := rfl
  have hwindows : Schema.bare.Windows (Schema.tableStorage projectIssues) Schema.allIssues
      projectIssues := Schema.windows_of_storage rfl (fun _ _ => rfl) rfl
  obtain ⟨hshows, hroot, hrelation, -⟩ := shows_window hpage (by decide)
  have hloaded : (Stitching.loadAll (Schema.tableStorage projectIssues) 15
      [(issuesTarget, .all "issues")] (some projectsProjection) [[("id", .int 1)]]).outcome =
      .ok [Stitching.attach issuesTarget (some ⟨.simple, 2, 2, 2⟩) projectIssues
        [("id", .int 1)]] := by
    rw [Stitching.outcome_loadAll_cons rfl rfl rfl]
    rfl
  obtain ⟨parents, fetched, related, hparents, hfetched, hrelated, hslots⟩ :=
    hrelation _ [] issuesTarget _ [] _ _ _ _ _ rfl rfl rfl (by simp) hloaded
  cases hparents
  cases hfetched
  cases hrelated
  have hslot : Entries.get? _ "issues" = some (answer ⟨.simple, 2, 2, 2⟩
      (Stitching.matching issuesTarget projectIssues [("id", .int 1)])) :=
    (List.forall₂_cons.1 hslots).1
  have hmatching : Stitching.matching issuesTarget projectIssues [("id", .int 1)] =
      projectIssues := by
    cbv
  rw [hmatching] at hslot
  exact ⟨_, hpage, by decide, hshows _, hroot _ _ _ _ rfl hwindows, _, hloaded, hslot⟩

/-! ## Counting pages -/

section Counting

variable {page : PageRequest} {total : Nat}

/-- Some pages, one at least, hold a total exactly if they go as far as the last one. -/
theorem lastPage_le_iff (hpos : 1 ≤ page.perPage) {n : Nat} (hn : 1 ≤ n) :
    page.lastPage total ≤ n ↔ total ≤ n * page.perPage := by
  have hlast : page.lastPage total = max (total ⌈/⌉ page.perPage) 1 := by
    rw [lastPage, Nat.ceilDiv_eq_add_pred_div, Nat.max_eq_left hpos]
  rw [hlast, max_le_iff, ceilDiv_le_iff_le_mul hpos, Nat.mul_comm]
  exact and_iff_left hn

lemma one_le_lastPage : 1 ≤ page.lastPage total := le_max_right _ _

lemma isLeast_lastPage (hpos : 1 ≤ page.perPage) :
    IsLeast {n | 1 ≤ n ∧ total ≤ n * page.perPage} (page.lastPage total) :=
  ⟨⟨one_le_lastPage, (lastPage_le_iff hpos one_le_lastPage).1 le_rfl⟩,
    fun _ hn => (lastPage_le_iff hpos hn.1).2 hn.2⟩

variable {arguments : Arguments} {defaultPerPage : Nat}

/-- Rows are left behind a page exactly if it is not the last one, nor behind it. -/
theorem AskedFor.end_lt_iff (h : AskedFor .offset arguments defaultPerPage page)
    (hpos : 1 ≤ page.perPage) :
    page.offset + page.perPage < total ↔ page.currentPage < page.lastPage total := by
  rw [h.offset_add_perPage (by decide), ← not_le, ← not_le, not_iff_not]
  exact (lastPage_le_iff hpos h.one_le_currentPage).symm

/-- A page starts behind all rows exactly if there are none, or it is behind the last page. -/
theorem AskedFor.le_offset_iff (h : AskedFor .offset arguments defaultPerPage page)
    (hpos : 1 ≤ page.perPage) :
    total ≤ page.offset ↔ total = 0 ∨ page.lastPage total < page.currentPage := by
  have hoffset := (h.numbered (by decide)).2
  obtain ⟨before, hbefore⟩ := Nat.exists_eq_add_of_le' h.one_le_currentPage
  rw [hbefore, Nat.add_sub_cancel] at hoffset
  rw [hoffset, hbefore, Nat.lt_succ_iff]
  cases before with
  | zero =>
    have hlast : 1 ≤ page.lastPage total := one_le_lastPage
    omega
  | succ before =>
    rw [lastPage_le_iff hpos (Nat.succ_pos before)]
    exact ⟨.inr, fun hempty => hempty.elim (fun hzero => hzero ▸ Nat.zero_le _) id⟩

end Counting

/-- What the numbers in an envelope say of a total, with the number of the last page and the items:
how many pages there are, whether more follow, and from where to where the items stand. -/
structure MetaFields (page : PageRequest) (total : Nat) (envelope : Value) (lastPage : Nat)
    (items : List Value) : Prop where
  data : envelope.member? "data" = some (.array items)
  counted : envelope.member? "total" = some (.int total)
  size : envelope.member? "per_page" = some (.int page.perPage)
  number : envelope.member? "current_page" = some (.int page.currentPage)
  final : envelope.member? "last_page" = some (.int lastPage)
  least : IsLeast {n | 1 ≤ n ∧ total ≤ n * page.perPage} lastPage
  more : envelope.member? "has_more_pages" =
    some (.bool (decide (page.currentPage < lastPage)))
  empty : items = [] ↔ total = 0 ∨ lastPage < page.currentPage
  positions : items ≠ [] → ∃ first last : Nat, envelope.member? "from" = some (.int first) ∧
    envelope.member? "to" = some (.int last) ∧ 1 ≤ first ∧ first ≤ last ∧ last ≤ total ∧
    last - first + 1 = items.length ∧ items.length ≤ page.perPage
  full : page.currentPage = lastPage →
    envelope.member? "to" = some (if total = 0 then .null else .int total)

/-- **The numbers of an offset page fit together**, for every request for a page that is not empty
by itself and whatever rows there are: pages past the end and totals that fill their pages
included. -/
theorem metaFields_of_offset {arguments : Arguments} {defaultPerPage : Nat} {page : PageRequest}
    (hdefault : defaultPerPage ≤ 2 ^ 32 - 1)
    (hpage : ofArguments .offset arguments defaultPerPage = .ok page) (hpos : 1 ≤ page.perPage)
    (rows : List Row) :
    ∃ lastPage items, page.MetaFields rows.length (page.answer rows) lastPage items := by
  have hasked := ofArguments_eq_ok_iff.1 hpage
  have hkind : page.kind ≠ .cursor := hasked.kind_eq.trans_ne (by decide)
  have hshows := (hasked.inRange hdefault).shows_answer
    (fun hother => absurd hasked.kind_eq hother) rows
  have hnil : page.shown rows = [] ↔ rows.length ≤ page.offset := shown_eq_nil_iff hpos
  -- Whether a page is empty or has more behind it, is said of its number and of its offset.
  have hempty : rows.length ≤ page.offset ↔
      rows.length = 0 ∨ page.lastPage rows.length < page.currentPage := hasked.le_offset_iff hpos
  have hmore : page.offset + page.perPage < rows.length ↔
      page.currentPage < page.lastPage rows.length := hasked.end_lt_iff hpos
  have hcounted : page.answer rows =
      page.envelope (Stitching.window page rows) (some rows.length) := by
    rw [answer, needsTotal, hasked.kind_eq]
    rfl
  obtain ⟨htotal, hsize, hcurrent, hlast⟩ :=
    member?_counted (Stitching.window page rows) (some rows.length) hasked.kind_eq
  rw [← hcounted] at htotal hsize hcurrent hlast
  refine ⟨page.lastPage rows.length, (page.shown rows).map .object, hshows.data, htotal, hsize,
    hcurrent, hlast, isLeast_lastPage hpos, ?_, ?_, fun hitems => ?_, fun hlast => ?_⟩
  · rw [hshows.more hkind, decide_eq_decide.2 hmore]
  · rw [List.map_eq_nil_iff, hnil, hempty]
  · have hsome : page.shown rows ≠ [] := by simpa using hitems
    have hroom := mt hnil.2 hsome
    refine ⟨page.offset + 1, page.offset + (page.shown rows).length, ?_, ?_, ?_⟩
    · rw [hshows.first hkind, if_neg hsome]
    · rw [hshows.last hkind, if_neg hsome]
    · have hlength : (page.shown rows).length = min page.perPage (rows.length - page.offset) :=
        length_shown
      rw [List.length_map]
      omega
  · rw [hshows.last hkind]
    by_cases hzero : rows.length = 0
    · rw [if_pos (hnil.2 (hempty.2 (.inl hzero))), if_pos hzero]
    · have hroom : ¬ rows.length ≤ page.offset := by
        rw [hempty]
        omega
      have hend : ¬ page.offset + page.perPage < rows.length := by
        rw [hmore]
        omega
      rw [if_neg (mt hnil.1 hroom), if_neg hzero,
        offset_add_length_shown (Nat.not_le.1 hroom) (Nat.not_lt.1 hend)]

/-- The third page of two has the fifth of five issues, and is the last. -/
theorem metaFields_of_offset_issues :
    15 ≤ 2 ^ 32 - 1 ∧ ∃ page, ofArguments .offset [("limit", .int 2), ("page", .int 3)] 15 =
      .ok page ∧ 1 ≤ page.perPage ∧ ∃ items,
        page.MetaFields 5 (page.answer Schema.issues) 3 items ∧ items.length = 1 := by
  have hpage : ofArguments .offset [("limit", .int 2), ("page", .int 3)] 15 =
      .ok ⟨.offset, 2, 3, 4⟩ := rfl
  obtain ⟨lastPage, items, hfields⟩ :=
    metaFields_of_offset (by decide) hpage (by decide) Schema.issues
  refine ⟨by decide, _, hpage, by decide, items, ?_, ?_⟩
  · obtain rfl : lastPage = 3 := hfields.least.unique (isLeast_lastPage (by decide))
    exact hfields
  · cases hfields.data
    rfl

end PageRequest

end GraphProjection
