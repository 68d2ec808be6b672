import GraphProjection.Proofs.Configuration
import GraphProjection.Proofs.Paging.Windows

/-!
# Going forward through pages

A client that asks for no size gets pages of the configured one.  It makes progress if each next
cursor leads past the page that names it, and if an offset page announces more pages exactly before
the last one.  A size that is given is never zero, but a configured one may be, and that is the only
thing that can go wrong: `advances_iff_one_le`.  With pages of no rows the next cursor of a page is
its own, and who follows it asks for the same page for ever.
-/

namespace GraphProjection

namespace PageRequest

/-! ## Progress -/

/-- Every next cursor leads past the start of the page, whatever was fetched for it. -/
def NextAdvances (page : PageRequest) : Prop :=
  ∀ rows total cursor, (page.envelope rows total).member? "next_cursor" = some (.string cursor) →
    ∃ offset, Cursor.decode? cursor = some offset ∧ page.offset < offset

/-- More pages are announced exactly before the last one, whatever was fetched and counted. -/
def MoreBeforeLast (page : PageRequest) : Prop :=
  ∀ rows total, ∃ (more : Bool) (current last : Nat),
    (page.envelope rows total).member? "has_more_pages" = some (.bool more) ∧
    (page.envelope rows total).member? "current_page" = some (.int current) ∧
    (page.envelope rows total).member? "last_page" = some (.int last) ∧
    (more = true ↔ current < last)

/-- A page leads to another one: whoever comes back with its next cursor, whatever was fetched for
it and whatever arguments stand beside the cursor, may get the other one. -/
def LeadsTo (defaultPerPage : Nat) (page next : PageRequest) : Prop :=
  ∃ (arguments given : Arguments) (rows : List Row) (total : Option Nat) (cursor : String),
    ofArguments .cursor arguments defaultPerPage = .ok page ∧
    (page.envelope rows total).member? "next_cursor" = some (.string cursor) ∧
    ofArguments .cursor (given.put "cursor" (.string cursor)) defaultPerPage = .ok next

/-- Nobody can follow next cursors for ever. -/
def Ends (defaultPerPage : Nat) : Prop :=
  WellFounded fun next page => LeadsTo defaultPerPage page next

section Progress

variable {arguments : Arguments} {defaultPerPage : Nat} {page : PageRequest}

lemma AskedFor.perPage_eq {kind : PageKind} (h : AskedFor kind arguments defaultPerPage page)
    (hlimit : Absent arguments "limit") : page.perPage = defaultPerPage :=
  h.size.unique readable_givesSize (.absent hlimit)

/-! ## Pages with rows -/

lemma InRange.nextAdvances (h : page.InRange) (hpos : 1 ≤ page.perPage) :
    page.NextAdvances := by
  intro rows total cursor hcursor
  obtain ⟨-, hnext, rfl⟩ := h.eq_encode_of_nextCursor hcursor
  exact ⟨_, Cursor.decode?_encode hnext, Nat.lt_add_of_pos_right hpos⟩

/-- Without a total, an offset page counts the items that it has. -/
lemma InRange.hasMore_offset (h : page.InRange) (hkind : page.kind = .offset) (rows : List Row)
    (total : Option Nat) : page.hasMore rows total =
      decide (page.offset + page.perPage < total.getD (rows.take page.perPage).length) := by
  have hmore : page.hasMore rows total =
      total.any fun total => decide (page.offset + page.perPage < total) := by
    rw [hasMore, hkind]
    simp only [h.satAdd_eq h.perPage_le]
  rw [hmore]
  cases total with
  | some total => rfl
  | none =>
    have hitems : (rows.take page.perPage).length ≤ page.perPage := List.length_take_le _ _
    have hnone : ¬ page.offset + page.perPage < (rows.take page.perPage).length := by omega
    exact (decide_eq_false hnone).symm

lemma AskedFor.moreBeforeLast (h : AskedFor .offset arguments defaultPerPage page)
    (hdefault : defaultPerPage ≤ maxSize) (hpos : 1 ≤ page.perPage) : page.MoreBeforeLast := by
  intro rows total
  obtain ⟨-, -, hmore⟩ := member?_numbered rows total (h.kind_eq.trans_ne (by decide))
  obtain ⟨-, -, hcurrent, hlast⟩ := member?_counted rows total h.kind_eq
  rw [(h.inRange hdefault).hasMore_offset h.kind_eq] at hmore
  exact ⟨_, _, _, hmore, hcurrent, hlast, decide_eq_true_iff.trans (h.end_lt_iff hpos)⟩

/-- With rows on every page, the offset grows along the cursors, and it cannot grow for ever. -/
lemma ends_of_pos (hdefault : defaultPerPage ≤ maxSize) (hpos : 1 ≤ defaultPerPage) :
    Ends defaultPerPage := by
  refine Subrelation.wf ?_ (measure fun page : PageRequest => maxOffset - page.offset).wf
  rintro next page ⟨arguments, given, rows, total, cursor, hpage, hcursor, hnext⟩
  have hasked := ofArguments_eq_ok_iff.1 hpage
  have hnext' := ofArguments_eq_ok_iff.1 hnext
  obtain ⟨-, hmax, rfl⟩ := (hasked.inRange hdefault).eq_encode_of_nextCursor hcursor
  have hoffset : next.offset = page.offset + page.perPage :=
    (hnext'.started rfl).2.unique readable_givesOffset (asks_put_cursor given hmax)
  have hperPage := hasked.size.pos hpos
  show maxOffset - next.offset < maxOffset - page.offset
  omega

/-! ## Pages without rows -/

/-- A page of no rows names itself as the next one, as soon as there is a row. -/
lemma nextCursor_of_perPage_eq_zero (h : page.InRange) (hkind : page.kind = .cursor)
    (hzero : page.perPage = 0) (row : Row) :
    (page.envelope [row] none).member? "next_cursor" =
      some (.string (Cursor.encode page.offset)) := by
  have hmore : page.perPage < [row].length ∧ page.offset + page.perPage ≤ maxOffset := by
    rw [hzero]
    exact ⟨Nat.zero_lt_one, h.offset_le⟩
  rw [(h.exact_envelope [row] none).next hkind, if_pos hmore, hzero, Nat.add_zero]

lemma not_nextAdvances (h : page.InRange) (hkind : page.kind = .cursor)
    (hzero : page.perPage = 0) : ¬ page.NextAdvances := by
  intro hadvances
  obtain ⟨offset, hdecode, hlt⟩ :=
    hadvances _ _ _ (nextCursor_of_perPage_eq_zero h hkind hzero [])
  rw [Cursor.decode?_encode h.offset_le] at hdecode
  cases hdecode
  exact Nat.lt_irrefl _ hlt

/-- Of one row, every page of no rows says that more follow, although there is one page at most. -/
lemma AskedFor.not_moreBeforeLast (h : AskedFor .offset arguments defaultPerPage page)
    (hdefault : defaultPerPage ≤ maxSize) (hzero : page.perPage = 0) : ¬ page.MoreBeforeLast := by
  intro hagrees
  obtain ⟨-, -, hmore⟩ := member?_numbered [] (some 1) (h.kind_eq.trans_ne (by decide))
  obtain ⟨-, -, hcurrent, hlast⟩ := member?_counted [] (some 1) h.kind_eq
  have hoffset : page.offset = 0 := by rw [(h.numbered (by decide)).2, hzero, Nat.mul_zero]
  have hlastPage : page.lastPage 1 = 1 := by rw [lastPage, hzero]; rfl
  have hnumber := h.one_le_currentPage
  rw [(h.inRange hdefault).hasMore_offset h.kind_eq, hoffset, hzero] at hmore
  rw [Option.getD_some, hlastPage] at hlast
  obtain ⟨more, current, last, hmore', hcurrent', hlast', hiff⟩ := hagrees [] (some 1)
  cases hmore.symm.trans hmore'
  cases hcurrent.symm.trans hcurrent'
  cases hlast.symm.trans hlast'
  exact absurd (hiff.1 rfl) (Nat.not_lt.2 hnumber)

/-- The first page of no rows leads to itself. -/
lemma not_ends_zero : ¬ Ends 0 := by
  intro hends
  have hloop : LeadsTo 0 ⟨.cursor, 0, 1, 0⟩ ⟨.cursor, 0, 1, 0⟩ :=
    ⟨[], [], [[]], none, _, rfl,
      nextCursor_of_perPage_eq_zero ⟨Nat.zero_le _, Nat.zero_le _⟩ rfl rfl [],
      accepted_encode 0 (Nat.zero_le _) [] 0 (.absent (.inl rfl))⟩
  exact hends.irrefl.irrefl _ hloop

end Progress

/-! ## Configured sizes -/

/-- **Paging makes progress if and only if the configured size is not zero.**  For every accepted
configuration and every request that is read with its size: the page is of one row at least, its
next cursors lead past it, it announces more pages exactly before the last one, and nobody can
follow next cursors for ever, each under that condition and not without it. -/
theorem advances_iff_one_le {text : String} {config : Config}
    (hconfig : Config.parse text = .ok config) {kind : PageKind} {arguments : Arguments}
    {page : PageRequest} (hlimit : Absent arguments "limit")
    (hpage : ofArguments kind arguments config.settings.defaultPerPage = .ok page) :
    (1 ≤ page.perPage ↔ 1 ≤ config.settings.defaultPerPage) ∧
    (kind = .cursor → (page.NextAdvances ↔ 1 ≤ config.settings.defaultPerPage)) ∧
    (kind = .offset → (page.MoreBeforeLast ↔ 1 ≤ config.settings.defaultPerPage)) ∧
    (Ends config.settings.defaultPerPage ↔ 1 ≤ config.settings.defaultPerPage) := by
  have hdefault := Config.defaultPerPage_le_of_parse hconfig
  have hasked := ofArguments_eq_ok_iff.1 hpage
  have hperPage := hasked.perPage_eq hlimit
  have hrange := hasked.inRange hdefault
  rw [← hperPage]
  refine ⟨Iff.rfl, ?_, ?_, ?_⟩
  · rintro rfl
    refine ⟨fun hadvances => ?_, hrange.nextAdvances⟩
    exact Nat.one_le_iff_ne_zero.2 fun hzero =>
      not_nextAdvances hrange hasked.kind_eq hzero hadvances
  · rintro rfl
    refine ⟨fun hagrees => ?_, hasked.moreBeforeLast hdefault⟩
    exact Nat.one_le_iff_ne_zero.2 fun hzero =>
      hasked.not_moreBeforeLast hdefault hzero hagrees
  · refine ⟨fun hends => ?_, ends_of_pos hrange.perPage_le⟩
    exact Nat.one_le_iff_ne_zero.2 fun hzero => not_ends_zero (hzero ▸ hends)

/-- A configuration of pages of no rows is accepted, and with it no kind of page makes progress. -/
theorem advances_iff_one_le_emptyPages :
    ∃ config first numbered,
      Config.parse "[settings]\ndefault_per_page = 0" = .ok config ∧
      ofArguments .cursor [] config.settings.defaultPerPage = .ok first ∧
      ofArguments .offset [] config.settings.defaultPerPage = .ok numbered ∧
      ¬ 1 ≤ first.perPage ∧ ¬ first.NextAdvances ∧ ¬ numbered.MoreBeforeLast ∧
      ¬ Ends config.settings.defaultPerPage := by
  have hconfig : Config.parse "[settings]\ndefault_per_page = 0" =
      .ok ⟨⟨false, 0, .currentLevel⟩, []⟩ := by
    decide +kernel
  have hfirst : ofArguments .cursor [] 0 = .ok ⟨.cursor, 0, 1, 0⟩ := rfl
  have hnumbered : ofArguments .offset [] 0 = .ok ⟨.offset, 0, 1, 0⟩ := rfl
  obtain ⟨hsize, hnext, -, hends⟩ := advances_iff_one_le hconfig (.inl rfl) hfirst
  obtain ⟨-, -, hmore, -⟩ := advances_iff_one_le hconfig (.inl rfl) hnumbered
  have hzero : ¬ 1 ≤ 0 := by decide
  exact ⟨_, _, _, hconfig, hfirst, hnumbered, mt hsize.1 hzero, mt (hnext rfl).1 hzero,
    mt (hmore rfl).1 hzero, mt hends.1 hzero⟩

end PageRequest

end GraphProjection
