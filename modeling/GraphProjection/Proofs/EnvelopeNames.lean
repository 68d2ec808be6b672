import GraphProjection.Proofs.Acceptance

/-!
# Names of envelopes

The name of an envelope is that of its items with the suffix of a kind behind it.  The suffix of the
offset kind is an ending of the two others, which have a mark in front of it (`PageKind.mark`).  So
a name can be read in two ways, but only as the offset envelope of items that are called `…Cursor`
or `…Simple` and as the cursor or simple envelope of what is called `…`
(`PageKind.typeName_eq_iff`).  A registry that has both types answers the second, for it tries the
offset kind last (`Registry.envelope?_eq_some_iff`).

Main statement: **`Registry.envelope?_decodes`**.
-/

namespace GraphProjection

/-! ## Names that can be read in two ways -/

namespace PageKind

variable {kind other : PageKind} {item base : String}

/-- What the suffix of a kind has in front of that of the offset kind. -/
def mark : PageKind → String
  | .offset => ""
  | .simple => "Simple"
  | .cursor => "Cursor"

/-- An item is called like another one with the mark of a kind behind it. -/
structure Marks (kind : PageKind) (base item : String) : Prop where
  ne_offset : kind ≠ .offset
  item_eq : item = base ++ kind.mark

lemma typeName_append_mark (kind : PageKind) (item : String) :
    offset.typeName (item ++ kind.mark) = kind.typeName item := by
  cases kind with
  | offset => rw [mark, String.append_empty]
  | simple => exact String.append_assoc
  | cursor => exact String.append_assoc

lemma typeName_eq_iff_append_mark :
    kind.typeName item = other.typeName base ↔ item ++ kind.mark = base ++ other.mark := by
  rw [← typeName_append_mark kind, ← typeName_append_mark other, typeName, typeName,
    String.append_left_inj]

/-- The two marks are of one length, so each is found again behind any name. -/
lemma append_mark_inj (hkind : kind ≠ .offset) (hother : other ≠ .offset)
    (h : item ++ kind.mark = base ++ other.mark) : kind = other ∧ item = base := by
  have hlength : kind.mark.toList.length = other.mark.toList.length := by
    revert hkind hother
    cases kind <;> cases other <;> decide
  rw [← String.toList_inj, String.toList_append, String.toList_append] at h
  obtain ⟨hitem, hmark⟩ := List.append_inj' h hlength
  refine ⟨?_, String.toList_inj.1 hitem⟩
  revert hmark hkind hother
  cases kind <;> cases other <;> decide

/-- **Two envelopes of one name.**  One of them is an offset envelope, whose items are called like
those of the other with the mark of its kind behind. -/
theorem typeName_eq_iff :
    kind.typeName item = other.typeName base ↔
      (kind = other ∧ item = base) ∨ (kind = .offset ∧ other.Marks base item) ∨
        (other = .offset ∧ kind.Marks item base) := by
  rw [typeName_eq_iff_append_mark]
  constructor
  · intro h
    by_cases hkind : kind = .offset
    · subst hkind
      rw [mark, String.append_empty] at h
      by_cases hother : other = .offset
      · subst hother
        rw [mark, String.append_empty] at h
        exact .inl ⟨rfl, h⟩
      · exact .inr (.inl ⟨rfl, hother, h⟩)
    · by_cases hother : other = .offset
      · subst hother
        rw [mark, String.append_empty] at h
        exact .inr (.inr ⟨rfl, hkind, h.symm⟩)
      · exact .inl (append_mark_inj hkind hother h)
  · rintro (⟨rfl, rfl⟩ | ⟨rfl, h⟩ | ⟨rfl, h⟩)
    · rfl
    · rw [mark, String.append_empty, h.item_eq]
    · rw [mark, String.append_empty, h.item_eq]

end PageKind

/-! ## Looking a name up -/

namespace Registry

variable {r : Registry} {name item : String} {kind other : PageKind}

lemma itemOf?_eq_some_iff :
    r.itemOf? name kind = some (other, item) ↔
      other = kind ∧ r.isRegistered item = true ∧ name = kind.typeName item := by
  rw [itemOf?, Option.map_eq_some_iff]
  simp only [Option.filter_eq_some_iff, PageKind.item?_eq_some_iff, Prod.mk.injEq]
  constructor
  · rintro ⟨item, ⟨hname, hregistered⟩, rfl, rfl⟩
    exact ⟨rfl, hregistered, hname⟩
  · rintro ⟨rfl, hregistered, hname⟩
    exact ⟨item, ⟨hname, hregistered⟩, rfl, rfl⟩

lemma exists_itemOf?_of_envelope? {found : PageKind × String}
    (h : r.envelope? name = some found) : ∃ kind, r.itemOf? name kind = some found := by
  obtain ⟨kind, -, hkind⟩ := List.exists_of_findSome?_eq_some h
  exact ⟨kind, hkind⟩

/-- What a name is read as is an envelope of that name of a registered type. -/
lemma registered_of_envelope? (h : r.envelope? name = some (kind, item)) :
    r.isRegistered item = true ∧ name = kind.typeName item := by
  obtain ⟨tried, htried⟩ := exists_itemOf?_of_envelope? h
  obtain ⟨rfl, hregistered, hname⟩ := itemOf?_eq_some_iff.1 htried
  exact ⟨hregistered, hname⟩

/-- The offset kind is tried last, so a name is read so only if it is no other envelope's. -/
lemma ne_typeName_of_envelope?_offset (h : r.envelope? name = some (.offset, item))
    (hother : other ≠ .offset) {base : String} (hbase : r.isRegistered base = true) :
    name ≠ other.typeName base := by
  intro hname
  have hfound : r.itemOf? name other = some (other, base) :=
    itemOf?_eq_some_iff.2 ⟨rfl, hbase, hname⟩
  rw [envelope?, PageKind.all, List.findSome?_cons] at h
  cases other with
  | offset => exact hother rfl
  | cursor =>
    rw [hfound] at h
    cases h
  | simple =>
    cases hcursor : r.itemOf? name .cursor with
    | some found =>
      rw [hcursor] at h
      cases h
      exact absurd (itemOf?_eq_some_iff.1 hcursor).1 (by decide)
    | none =>
      rw [hcursor] at h
      simp only [List.findSome?_cons, hfound] at h
      cases h

/-- **What a name is read as.**  It is an envelope of that name of a registered type; one of the
offset kind only if its items are not called like another registered type with a mark behind. -/
theorem envelope?_eq_some_iff :
    r.envelope? name = some (kind, item) ↔
      r.isRegistered item = true ∧ name = kind.typeName item ∧
        (kind = .offset → ∀ other base, PageKind.Marks other base item →
          r.isRegistered base = false) := by
  constructor
  · intro h
    obtain ⟨hregistered, hname⟩ := registered_of_envelope? h
    refine ⟨hregistered, hname, ?_⟩
    rintro rfl other base hmarks
    rw [← Bool.not_eq_true]
    intro hbase
    apply ne_typeName_of_envelope?_offset h hmarks.ne_offset hbase
    exact hname.trans (PageKind.typeName_eq_iff.2 (.inr (.inl ⟨rfl, hmarks⟩)))
  · rintro ⟨hregistered, hname, hunmarked⟩
    have hsome : (r.envelope? name).isSome = true :=
      isSome_envelope?_iff.2 ⟨kind, item, isRegistered_eq_true_iff.1 hregistered, hname⟩
    obtain ⟨⟨found, base⟩, henvelope⟩ := Option.isSome_iff_exists.1 hsome
    obtain ⟨hbase, hfound⟩ := registered_of_envelope? henvelope
    -- What is found has the name as well, so it is the same or one of the two is marked.
    rcases PageKind.typeName_eq_iff.1 (hname.symm.trans hfound) with
      ⟨rfl, rfl⟩ | ⟨hoffset, hmarks⟩ | ⟨rfl, hmarks⟩
    · exact henvelope
    · have hnot := hunmarked hoffset found base hmarks
      rw [hbase] at hnot
      cases hnot
    · exact absurd hname (ne_typeName_of_envelope?_offset henvelope hmarks.ne_offset hregistered)

/-- A name that is that of two envelopes is read as the one that is not of the offset kind. -/
lemma envelope?_of_marks {base : String} (hmarks : PageKind.Marks other base item)
    (hbase : r.isRegistered base = true) :
    r.envelope? (PageKind.typeName .offset item) = some (other, base) := by
  have hname : PageKind.typeName .offset item = PageKind.typeName other base :=
    PageKind.typeName_eq_iff.2 (.inr (.inl ⟨rfl, hmarks⟩))
  exact envelope?_eq_some_iff.2 ⟨hbase, hname, fun h => absurd h hmarks.ne_offset⟩

/-- The name of an envelope is read as that envelope, unless it is of the offset kind and its items
are called like another registered type with a mark behind. -/
theorem envelope?_typeName_iff (hitem : r.isRegistered item = true) :
    r.envelope? (kind.typeName item) = some (kind, item) ↔
      ¬ (kind = .offset ∧ ∃ other base, PageKind.Marks other base item ∧
        r.isRegistered base = true) := by
  rw [envelope?_eq_some_iff]
  constructor
  · rintro ⟨-, -, hunmarked⟩ ⟨hoffset, other, base, hmarks, hbase⟩
    have hnot := hunmarked hoffset other base hmarks
    rw [hbase] at hnot
    cases hnot
  · intro h
    refine ⟨hitem, rfl, fun hoffset other base hmarks => ?_⟩
    rw [← Bool.not_eq_true]
    exact fun hbase => h ⟨hoffset, other, base, hmarks, hbase⟩

/-- **Names of envelopes are decoded.**  What a name is read as is an envelope of that name of a
registered type, and every such name is read.  Two envelopes have one name only if one of them is an
offset envelope whose items are called like those of the other with `Cursor` or `Simple`, the mark
of the other's kind, behind; the name is then read as the other.  In every other case the name of an
envelope is read as that envelope.  So the output types are the registered types and their
envelopes. -/
theorem envelope?_decodes (r : Registry) :
    (∀ name kind item, r.envelope? name = some (kind, item) →
      r.isRegistered item = true ∧ name = kind.typeName item) ∧
    (∀ kind item, r.isRegistered item = true →
      (r.envelope? (PageKind.typeName kind item)).isSome = true) ∧
    (∀ kind item other base, r.isRegistered item = true → r.isRegistered base = true →
      (kind, item) ≠ (other, base) → PageKind.typeName kind item = PageKind.typeName other base →
      (kind = .offset ∧ other.Marks base item ∧
          r.envelope? (kind.typeName item) = some (other, base)) ∨
        (other = .offset ∧ kind.Marks item base ∧
          r.envelope? (kind.typeName item) = some (kind, item))) ∧
    (∀ kind item, r.isRegistered item = true →
      (r.envelope? (PageKind.typeName kind item) = some (kind, item) ↔
        ¬ (kind = .offset ∧ ∃ other base, PageKind.Marks other base item ∧
          r.isRegistered base = true))) ∧
    (∀ name, r.isOutputType name = true ↔ r.isRegistered name = true ∨
      ∃ kind item, r.isRegistered item = true ∧ name = PageKind.typeName kind item) := by
  refine ⟨fun name kind item => registered_of_envelope?, ?_, ?_,
    fun kind item hitem => envelope?_typeName_iff hitem, fun name => ?_⟩
  · intro kind item hitem
    exact isSome_envelope?_iff.2 ⟨kind, item, isRegistered_eq_true_iff.1 hitem, rfl⟩
  · intro kind item other base hitem hbase hne hname
    -- Two envelopes of one name are the same, or one of them is an offset envelope of a marked
    -- name.
    rcases PageKind.typeName_eq_iff.1 hname with ⟨rfl, rfl⟩ | ⟨rfl, hmarks⟩ | ⟨rfl, hmarks⟩
    · exact absurd rfl hne
    · exact .inl ⟨rfl, hmarks, envelope?_of_marks hmarks hbase⟩
    · rw [hname]
      exact .inr ⟨rfl, hmarks, envelope?_of_marks hmarks hitem⟩
  · rw [isOutputType, Bool.or_eq_true, isSome_envelope?_iff]
    simp only [isRegistered_eq_true_iff]

/-! ## Posts and their cursors -/

/-- There are posts, and a type that is called like the cursor envelopes of posts begin. -/
def bookmarks : Registry where
  settings := {}
  types := [
    { name := "Post", fields := [{ name := "id", type := "ID!" }] },
    { name := "PostCursor", fields := [{ name := "text", type := "String!" }] }]

/-- Pages of posts behind a cursor and numbered pages of their cursors have one name, which is read
as that of the former; the other envelopes of the cursors are read. -/
theorem envelope?_decodes_bookmarks :
    bookmarks.isRegistered "PostCursor" = true ∧
    PageKind.typeName .offset "PostCursor" = PageKind.typeName .cursor "Post" ∧
    bookmarks.envelope? "PostCursorPagination" = some (.cursor, "Post") ∧
    bookmarks.envelope? "PostCursorSimplePagination" = some (.simple, "PostCursor") ∧
    bookmarks.isOutputType "PostCursorCursorPagination" = true := by
  have hpost : bookmarks.isRegistered "Post" = true := by decide
  have hcursor : bookmarks.isRegistered "PostCursor" = true := by decide
  have hname : PageKind.typeName .offset "PostCursor" = PageKind.typeName .cursor "Post" := rfl
  obtain ⟨-, -, hambiguous, hother, houtput⟩ := envelope?_decodes bookmarks
  refine ⟨hcursor, hname, ?_, ?_, ?_⟩
  · rcases hambiguous .offset "PostCursor" .cursor "Post" hcursor hpost (by decide) hname with
      ⟨-, -, hread⟩ | ⟨hoffset, -, -⟩
    · exact hread
    · cases hoffset
  · exact (hother .simple "PostCursor" hcursor).2 fun h => by cases h.1
  · exact (houtput _).2 (.inr ⟨.cursor, "PostCursor", hcursor, rfl⟩)

end Registry

end GraphProjection
