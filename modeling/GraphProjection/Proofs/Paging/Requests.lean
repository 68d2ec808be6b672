import GraphProjection.Page
import GraphProjection.Proofs.Paging.CursorText
import Mathlib.Order.Nat

/-!
# What pages are asked for

A page is read from three arguments, each of which may be left out: the size of a page, its number,
and the cursor at which it starts.  Here the reading is described without the order in which it
happens.  An argument asks for a number, its own or the one that stands for it when it is absent,
or it is refused (`Asks`, `Refused`); a request is asked for when its parts are (`AskedFor`); and a
number or a cursor may make it impossible to ask (`RefusesNumber`, `RefusesCursor`).

Main statement: `ofArguments_cases`.  What is read is asked for, and what fails is refused for the
reason that is given.  These exclude each other, so each outcome of the reading has an exact
condition (`ofArguments_eq_ok_iff` and those behind it).

Sizes and numbers are words of 32 bits and offsets words of 64.  `toNat_wordOffset` says that
words are enough: where the offset of a numbered page is computed, nothing wraps around.
-/

namespace GraphProjection

namespace PageRequest

/-! ## What one argument asks for -/

/-- An argument is not given; null is like that. -/
def Absent (arguments : Arguments) (name : String) : Prop :=
  arguments.get? name = none ∨ arguments.get? name = some .null

/-- A value is a size or a number of pages: a whole number from one to the largest size. -/
def GivesSize (value : Value) (n : Nat) : Prop := value = .int n ∧ 1 ≤ n ∧ n ≤ maxSize

/-- A value is the cursor of an offset. -/
def GivesOffset (value : Value) (offset : Nat) : Prop :=
  ∃ cursor, value = .string cursor ∧ Cursor.decode? cursor = some offset

/-- An argument asks for a number: the one that its value gives, or a fallback without it. -/
inductive Asks (Gives : Value → Nat → Prop) (arguments : Arguments) (name : String)
    (fallback : Nat) : Nat → Prop
  | absent (h : Absent arguments name) : Asks Gives arguments name fallback fallback
  | given {value : Value} {n : Nat} (h : arguments.get? name = some value) (gives : Gives value n) :
      Asks Gives arguments name fallback n

/-- An argument is there, and its value gives no number. -/
def Refused (Gives : Value → Nat → Prop) (arguments : Arguments) (name : String) : Prop :=
  ¬ Absent arguments name ∧ ∀ value, arguments.get? name = some value → ∀ n, ¬ Gives value n

/-- Null gives no number, and no value gives two. -/
structure Readable (Gives : Value → Nat → Prop) : Prop where
  null : ∀ n, ¬ Gives .null n
  unique : ∀ value m n, Gives value m → Gives value n → m = n

lemma readable_givesSize : Readable GivesSize where
  null := by
    rintro n ⟨h, -⟩
    cases h
  unique := by
    rintro value m n ⟨rfl, -⟩ ⟨h, -⟩
    exact Int.ofNat.inj (Value.int.inj h)

lemma readable_givesOffset : Readable GivesOffset where
  null := by
    rintro n ⟨cursor, h, -⟩
    cases h
  unique := by
    rintro value m n ⟨cursor, rfl, hm⟩ ⟨other, h, hn⟩
    cases h
    exact Option.some.inj (hm.symm.trans hn)

section Arguments

variable {Gives : Value → Nat → Prop} {arguments : Arguments} {name : String} {fallback : Nat}

lemma absent_iff_eq_null {value : Value} (h : arguments.get? name = some value) :
    Absent arguments name ↔ value = .null := by
  simp [Absent, h]

lemma refused_of_get? {value : Value} (h : arguments.get? name = some value)
    (hnull : value ≠ .null) (hnone : ∀ n, ¬ Gives value n) : Refused Gives arguments name := by
  refine ⟨mt (absent_iff_eq_null h).1 hnull, fun other hother => ?_⟩
  obtain rfl := Option.some.inj (h.symm.trans hother)
  exact hnone

lemma Asks.not_refused {n : Nat} (h : Asks Gives arguments name fallback n) :
    ¬ Refused Gives arguments name := by
  rintro ⟨hpresent, hnone⟩
  cases h with
  | absent habsent => exact hpresent habsent
  | given hvalue hgives => exact hnone _ hvalue n hgives

/-- An argument asks for one number at most. -/
lemma Asks.unique (hreadable : Readable Gives) {m n : Nat}
    (hm : Asks Gives arguments name fallback m) (hn : Asks Gives arguments name fallback n) :
    m = n := by
  have hgiven : ∀ {value k}, Absent arguments name → arguments.get? name = some value →
      ¬ Gives value k := by
    intro value k habsent hvalue
    rw [(absent_iff_eq_null hvalue).1 habsent]
    exact hreadable.null k
  cases hm with
  | absent habsent =>
    cases hn with
    | absent _ => rfl
    | given hvalue hgives => exact absurd hgives (hgiven habsent hvalue)
  | given hvalue hgives =>
    cases hn with
    | absent habsent => exact absurd hgives (hgiven habsent hvalue)
    | given hvalue' hgives' =>
      obtain rfl := Option.some.inj (hvalue.symm.trans hvalue')
      exact hreadable.unique _ m n hgives hgives'

end Arguments

lemma eq_int_of_asNat? {value : Value} {n : Nat} (h : value.asNat? = some n) :
    value = .int n := by
  unfold Value.asNat? at h
  split at h
  · cases h
    rfl
  · cases h

/-- The size or number of pages is read as it is asked for. -/
lemma positive?_cases (arguments : Arguments) (argument : PageArgument) :
    (∃ found, positive? arguments argument = .ok found ∧
      ∀ fallback, Asks GivesSize arguments argument.name fallback (found.getD fallback)) ∨
    positive? arguments argument = .error (.invalidArgument argument) ∧
      Refused GivesSize arguments argument.name := by
  rw [positive?]
  split
  · next h => exact .inl ⟨none, rfl, fun _ => .absent (.inl h)⟩
  · next h => exact .inl ⟨none, rfl, fun _ => .absent (.inr h)⟩
  · next value hnull h =>
    split
    · next n hnat =>
      obtain rfl := eq_int_of_asNat? hnat
      by_cases hn : 0 < n ∧ n ≤ maxSize
      · exact .inl ⟨some n, if_pos hn, fun _ => .given h ⟨rfl, hn⟩⟩
      · refine .inr ⟨if_neg hn, refused_of_get? h hnull ?_⟩
        rintro m ⟨hm, hbounds⟩
        cases hm
        exact hn hbounds
    · next hnat =>
      refine .inr ⟨rfl, refused_of_get? h hnull ?_⟩
      rintro n ⟨rfl, -⟩
      cases hnat

/-- The start is read as it is asked for. -/
lemma startOffset_cases (arguments : Arguments) :
    (∃ offset, startOffset arguments = .ok offset ∧
      Asks GivesOffset arguments "cursor" 0 offset) ∨
    startOffset arguments = .error .invalidCursor ∧ Refused GivesOffset arguments "cursor" := by
  rw [startOffset]
  split
  · next h => exact .inl ⟨0, rfl, .absent (.inl h)⟩
  · next h => exact .inl ⟨0, rfl, .absent (.inr h)⟩
  · next cursor h =>
    split
    · next offset hdecode => exact .inl ⟨offset, rfl, .given h ⟨cursor, rfl, hdecode⟩⟩
    · next hdecode =>
      refine .inr ⟨rfl, refused_of_get? h (by simp) ?_⟩
      rintro offset ⟨other, hother, hoffset⟩
      cases hother
      cases hdecode.symm.trans hoffset
  · next value hnull hstring h =>
    refine .inr ⟨rfl, refused_of_get? h hnull ?_⟩
    rintro offset ⟨cursor, hvalue, -⟩
    exact hstring cursor hvalue

/-! ## What a request asks for -/

/-- The request that arguments ask for. -/
structure AskedFor (kind : PageKind) (arguments : Arguments) (defaultPerPage : Nat)
    (page : PageRequest) : Prop where
  kind_eq : page.kind = kind
  size : Asks GivesSize arguments "limit" defaultPerPage page.perPage
  numbered : kind ≠ .cursor → Asks GivesSize arguments "page" 1 page.currentPage ∧
    page.offset = (page.currentPage - 1) * page.perPage
  started : kind = .cursor → page.currentPage = 1 ∧
    Asks GivesOffset arguments "cursor" 0 page.offset
  offset_le : page.offset ≤ maxOffset

/-- Arguments make a size or a number impossible: one of them is refused, or the page that they
number starts behind the largest offset. -/
def RefusesNumber (kind : PageKind) (arguments : Arguments) (defaultPerPage : Nat) : Prop :=
  Refused GivesSize arguments "limit" ∨ kind ≠ .cursor ∧ (Refused GivesSize arguments "page" ∨
    ∃ size number, Asks GivesSize arguments "limit" defaultPerPage size ∧
      Asks GivesSize arguments "page" 1 number ∧ maxOffset < (number - 1) * size)

/-- Arguments name a cursor that is refused. -/
def RefusesCursor (kind : PageKind) (arguments : Arguments) : Prop :=
  ¬ Refused GivesSize arguments "limit" ∧ kind = .cursor ∧
    Refused GivesOffset arguments "cursor"

section Requests

variable {kind : PageKind} {arguments : Arguments} {defaultPerPage : Nat}

lemma AskedFor.unique {page other : PageRequest} (h : AskedFor kind arguments defaultPerPage page)
    (h' : AskedFor kind arguments defaultPerPage other) : page = other := by
  have hkind := h.kind_eq.trans h'.kind_eq.symm
  have hsize := h.size.unique readable_givesSize h'.size
  have hrest : page.currentPage = other.currentPage ∧ page.offset = other.offset := by
    by_cases hcursor : kind = .cursor
    · obtain ⟨hpage, hstart⟩ := h.started hcursor
      obtain ⟨hpage', hstart'⟩ := h'.started hcursor
      exact ⟨hpage.trans hpage'.symm, hstart.unique readable_givesOffset hstart'⟩
    · obtain ⟨hpage, hoffset⟩ := h.numbered hcursor
      obtain ⟨hpage', hoffset'⟩ := h'.numbered hcursor
      have hnumber := hpage.unique readable_givesSize hpage'
      exact ⟨hnumber, by rw [hoffset, hoffset', hnumber, hsize]⟩
  cases page
  cases other
  simp only at hkind hsize hrest
  rw [hkind, hsize, hrest.1, hrest.2]

lemma AskedFor.not_refusesNumber {page : PageRequest}
    (h : AskedFor kind arguments defaultPerPage page) :
    ¬ RefusesNumber kind arguments defaultPerPage := by
  rintro (hlimit | ⟨hkind, hpage | ⟨size, number, hsize, hnumber, hlarge⟩⟩)
  · exact h.size.not_refused hlimit
  · exact (h.numbered hkind).1.not_refused hpage
  · obtain ⟨hasked, hoffset⟩ := h.numbered hkind
    rw [hsize.unique readable_givesSize h.size, hnumber.unique readable_givesSize hasked,
      ← hoffset] at hlarge
    exact Nat.not_lt.2 h.offset_le hlarge

lemma AskedFor.not_refusesCursor {page : PageRequest}
    (h : AskedFor kind arguments defaultPerPage page) : ¬ RefusesCursor kind arguments :=
  fun ⟨_, hkind, hcursor⟩ => (h.started hkind).2.not_refused hcursor

lemma RefusesNumber.not_refusesCursor (h : RefusesNumber kind arguments defaultPerPage) :
    ¬ RefusesCursor kind arguments := by
  rintro ⟨hlimit, hkind, -⟩
  rcases h with h | ⟨h, -⟩
  · exact hlimit h
  · exact h hkind

/-! ## What is read -/

/-- No cursor names an offset behind the largest one. -/
lemma Asks.le_maxOffset {offset : Nat} (h : Asks GivesOffset arguments "cursor" 0 offset) :
    offset ≤ maxOffset := by
  cases h with
  | absent _ => exact Nat.zero_le _
  | given _ hgives =>
    obtain ⟨cursor, -, hdecode⟩ := hgives
    rw [Cursor.decode?, Option.bind_eq_some_iff] at hdecode
    obtain ⟨bytes, -, hplain⟩ := hdecode
    rw [Cursor.ofPlain?, Option.filter_eq_some_iff] at hplain
    exact of_decide_eq_true hplain.2

lemma numbered_cases {size : Nat} (hkind : kind ≠ .cursor)
    (hsize : Asks GivesSize arguments "limit" defaultPerPage size) :
    (∃ page, numbered kind size arguments = .ok page ∧
      AskedFor kind arguments defaultPerPage page) ∨
    numbered kind size arguments = .error (.invalidArgument .page) ∧
      RefusesNumber kind arguments defaultPerPage := by
  rcases positive?_cases arguments .page with ⟨found, hfound, hasks⟩ | ⟨hfound, hrefused⟩
  · rw [numbered, hfound]
    by_cases hlarge : maxOffset < (found.getD 1 - 1) * size
    · exact .inr ⟨if_pos hlarge, .inr ⟨hkind, .inr ⟨size, _, hsize, hasks 1, hlarge⟩⟩⟩
    · exact .inl ⟨_, if_neg hlarge, rfl, hsize, fun _ => ⟨hasks 1, rfl⟩,
        fun hcursor => absurd hcursor hkind, Nat.not_lt.1 hlarge⟩
  · rw [numbered, hfound]
    exact .inr ⟨rfl, .inr ⟨hkind, .inl hrefused⟩⟩

/-- **Arguments are read as they are asked for.**  Either the request comes out that they ask for,
or the argument that is refused is named, the size before the number, or the cursor is. -/
theorem ofArguments_cases (kind : PageKind) (arguments : Arguments) (defaultPerPage : Nat) :
    (∃ page, ofArguments kind arguments defaultPerPage = .ok page ∧
      AskedFor kind arguments defaultPerPage page) ∨
    (∃ argument, ofArguments kind arguments defaultPerPage = .error (.invalidArgument argument) ∧
      RefusesNumber kind arguments defaultPerPage ∧
      (argument = .limit ↔ Refused GivesSize arguments "limit")) ∨
    ofArguments kind arguments defaultPerPage = .error .invalidCursor ∧
      RefusesCursor kind arguments := by
  -- The size is read first; only if it is not refused, the number or the cursor is looked at.
  rcases positive?_cases arguments .limit with ⟨found, hfound, hasks⟩ | ⟨hfound, hrefused⟩
  · have hsize := hasks defaultPerPage
    have hlimit := hsize.not_refused
    by_cases hkind : kind = .cursor
    · subst hkind
      have hread : ofArguments .cursor arguments defaultPerPage =
          (startOffset arguments).bind fun offset =>
            .ok ⟨.cursor, found.getD defaultPerPage, 1, offset⟩ := by
        rw [ofArguments, hfound]
        rfl
      rw [hread]
      rcases startOffset_cases arguments with ⟨offset, hstart, hasked⟩ | ⟨hstart, hrefused⟩
      · rw [hstart]
        exact .inl ⟨_, rfl, rfl, hsize, fun h => absurd rfl h, fun _ => ⟨rfl, hasked⟩,
          hasked.le_maxOffset⟩
      · rw [hstart]
        exact .inr (.inr ⟨rfl, hlimit, rfl, hrefused⟩)
    · have hread : ofArguments kind arguments defaultPerPage =
          numbered kind (found.getD defaultPerPage) arguments := by
        rw [ofArguments, hfound]
        cases kind with
        | offset | simple => rfl
        | cursor => exact absurd rfl hkind
      rw [hread]
      rcases numbered_cases hkind hsize with hpage | ⟨herror, hrefused⟩
      · exact .inl hpage
      · exact .inr (.inl ⟨.page, herror, hrefused, fun h => (by cases h),
          fun h => absurd h hlimit⟩)
  · rw [ofArguments, hfound]
    exact .inr (.inl ⟨.limit, rfl, .inl hrefused, fun _ => hrefused, fun _ => rfl⟩)

theorem ofArguments_eq_ok_iff {page : PageRequest} :
    ofArguments kind arguments defaultPerPage = .ok page ↔
      AskedFor kind arguments defaultPerPage page := by
  rcases ofArguments_cases kind arguments defaultPerPage with
    ⟨asked, hread, hasked⟩ | ⟨argument, hread, hrefused, -⟩ | ⟨hread, hrefused⟩
  · rw [hread, Except.ok.injEq]
    exact ⟨fun h => h ▸ hasked, hasked.unique⟩
  · rw [hread]
    exact ⟨fun h => (by cases h), fun h => absurd hrefused h.not_refusesNumber⟩
  · rw [hread]
    exact ⟨fun h => (by cases h), fun h => absurd hrefused h.not_refusesCursor⟩

/-- A cursor page of the size and the start that are asked for. -/
lemma ofArguments_cursor {size offset : Nat}
    (hsize : Asks GivesSize arguments "limit" defaultPerPage size)
    (hstart : Asks GivesOffset arguments "cursor" 0 offset) :
    ofArguments .cursor arguments defaultPerPage = .ok ⟨.cursor, size, 1, offset⟩ :=
  ofArguments_eq_ok_iff.2 ⟨rfl, hsize, fun h => absurd rfl h, fun _ => ⟨rfl, hstart⟩,
    hstart.le_maxOffset⟩

/-- A numbered page of the size and the number that are asked for. -/
lemma ofArguments_numbered {size number : Nat} (hkind : kind ≠ .cursor)
    (hsize : Asks GivesSize arguments "limit" defaultPerPage size)
    (hnumber : Asks GivesSize arguments "page" 1 number)
    (hoffset : (number - 1) * size ≤ maxOffset) :
    ofArguments kind arguments defaultPerPage =
      .ok ⟨kind, size, number, (number - 1) * size⟩ :=
  ofArguments_eq_ok_iff.2 ⟨rfl, hsize, fun _ => ⟨hnumber, rfl⟩, fun h => absurd h hkind, hoffset⟩

/-- The cursor of an offset asks for that offset. -/
lemma asks_put_cursor (arguments : Arguments) {offset : Nat} (h : offset ≤ maxOffset) :
    Asks GivesOffset (arguments.put "cursor" (.string (Cursor.encode offset))) "cursor" 0 offset :=
  .given (Entries.get?_put_self _ _ _) ⟨_, rfl, Cursor.decode?_encode h⟩

lemma ofArguments_eq_invalidArgument_iff {argument : PageArgument} :
    ofArguments kind arguments defaultPerPage = .error (.invalidArgument argument) ↔
      RefusesNumber kind arguments defaultPerPage ∧
        (argument = .limit ↔ Refused GivesSize arguments "limit") := by
  rcases ofArguments_cases kind arguments defaultPerPage with
    ⟨asked, hread, hasked⟩ | ⟨named, hread, hrefused, hnamed⟩ | ⟨hread, hrefused⟩
  · rw [hread]
    exact ⟨fun h => (by cases h), fun h => absurd h.1 hasked.not_refusesNumber⟩
  · rw [hread, Except.error.injEq, PageError.invalidArgument.injEq]
    refine ⟨fun h => h ▸ ⟨hrefused, hnamed⟩, fun ⟨_, hargument⟩ => ?_⟩
    -- of two arguments, each is known by whether it is the limit
    have hiff := hnamed.trans hargument.symm
    cases named with
    | limit => exact (hiff.1 rfl).symm
    | page =>
      cases argument with
      | limit => exact hiff.2 rfl
      | page => rfl
  · rw [hread]
    exact ⟨fun h => (by cases h), fun h => absurd hrefused h.1.not_refusesCursor⟩

lemma ofArguments_eq_invalidCursor_iff :
    ofArguments kind arguments defaultPerPage = .error .invalidCursor ↔
      RefusesCursor kind arguments := by
  rcases ofArguments_cases kind arguments defaultPerPage with
    ⟨asked, hread, hasked⟩ | ⟨argument, hread, hrefused, -⟩ | ⟨hread, hrefused⟩
  · rw [hread]
    exact ⟨fun h => (by cases h), fun h => absurd h hasked.not_refusesCursor⟩
  · rw [hread]
    exact ⟨fun h => (by cases h), fun h => absurd h hrefused.not_refusesCursor⟩
  · rw [hread]
    exact ⟨fun _ => hrefused, fun _ => rfl⟩

end Requests

/-! ## In words -/

/-- The offset of a numbered page in words, whose differences and products wrap around. -/
def wordOffset (number size : UInt32) : UInt64 := (number - 1).toUInt64 * size.toUInt64

/-- Where there is a first page and sizes fit in a word, nothing wraps around. -/
theorem toNat_wordOffset {number size : Nat} (hpos : 1 ≤ number) (hnumber : number ≤ maxSize)
    (hsize : size ≤ maxSize) :
    (wordOffset (.ofNat number) (.ofNat size)).toNat = (number - 1) * size := by
  have hnumber' : (UInt32.ofNat number).toNat = number :=
    UInt32.toNat_ofNat_of_lt' (Nat.lt_of_le_of_lt hnumber (by decide))
  have hsize' : (UInt32.ofNat size).toNat = size :=
    UInt32.toNat_ofNat_of_lt' (Nat.lt_of_le_of_lt hsize (by decide))
  have hone : (1 : UInt32) ≤ .ofNat number := by
    rw [UInt32.le_iff_toNat_le, hnumber']
    exact hpos
  have hproduct : (number - 1) * size ≤ maxSize * maxSize :=
    Nat.mul_le_mul ((Nat.sub_le _ _).trans hnumber) hsize
  rw [wordOffset, UInt64.toNat_mul, UInt32.toNat_toUInt64, UInt32.toNat_toUInt64,
    UInt32.toNat_sub_of_le _ _ hone, hnumber', hsize']
  exact Nat.mod_eq_of_lt (Nat.lt_of_le_of_lt hproduct (by decide))

section Ranges

variable {arguments : Arguments} {name : String} {fallback n : Nat}

lemma Asks.le_maxSize (h : Asks GivesSize arguments name fallback n)
    (hfallback : fallback ≤ maxSize) : n ≤ maxSize := by
  cases h with
  | absent _ => exact hfallback
  | given _ hgives => exact hgives.2.2

lemma Asks.pos (h : Asks GivesSize arguments name fallback n) (hfallback : 1 ≤ fallback) :
    1 ≤ n := by
  cases h with
  | absent _ => exact hfallback
  | given _ hgives => exact hgives.2.1

lemma AskedFor.one_le_currentPage {kind : PageKind} {defaultPerPage : Nat} {page : PageRequest}
    (h : AskedFor kind arguments defaultPerPage page) : 1 ≤ page.currentPage := by
  by_cases hkind : kind = .cursor
  · exact (h.started hkind).1.ge
  · exact (h.numbered hkind).1.pos le_rfl

/-- A numbered page ends where the pages up to its number do. -/
lemma AskedFor.offset_add_perPage {kind : PageKind} {defaultPerPage : Nat} {page : PageRequest}
    (h : AskedFor kind arguments defaultPerPage page) (hkind : kind ≠ .cursor) :
    page.offset + page.perPage = page.currentPage * page.perPage := by
  have hroom : page.perPage ≤ page.currentPage * page.perPage :=
    Nat.le_mul_of_pos_left _ h.one_le_currentPage
  rw [(h.numbered hkind).2, Nat.sub_mul, Nat.one_mul, Nat.sub_add_cancel hroom]

end Ranges

end PageRequest

end GraphProjection
