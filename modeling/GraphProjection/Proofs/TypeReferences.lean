import Mathlib.Data.List.Chain
import GraphProjection.TypeRef

/-!
# Which texts are type references

The grammar of type references has two kinds of phrases.  A reference is a nullable one with or
without a mark behind it, and a nullable reference is a name or a reference in brackets:

* `T ::= N | N !`
* `N ::= Name | [ T ]`

White space may stand around every token, and in no name.  `TypeRef.Derives` is this grammar; what a
text derives is the name inside all brackets and what the name is wrapped in, from the outside in
(`TypeRef.Wrapping`).  Trees are such names with their wrappings: `TypeRef.eq_of_wrappings_eq` says
that they are known from both, and a list of wrappings is that of a tree as long as no mark stands
on a mark.

Reading peels a text from both ends at once, white space, then the mark, then the brackets, so it
is compared with the grammar from the outside: `exists_splitMark` says what is peeled off, and
`splitMark_trim` that nothing else is.

Main statements: **`TypeRef.parse_eq_ok_iff_derives`**, exactly the texts of the grammar are read,
and **`TypeRef.parse_text_of_parse`**, what is written is what was read without its white space, and
is read as the same.
-/

namespace GraphProjection

/-! ## White space at the ends of a text -/

namespace Text

/-- Nothing but white space. -/
def Blank (cs : List Char) : Prop := ∀ c ∈ cs, isBlank c = true

/-- A text with no white space at its ends. -/
def Trimmed (cs : List Char) : Prop :=
  (∀ c, cs.head? = some c → isBlank c = false) ∧ ∀ c, cs.getLast? = some c → isBlank c = false

/-- A text without any white space. -/
def dense (cs : List Char) : List Char := cs.filter fun c => !isBlank c

variable {before after cs : List Char}

lemma blank_nil : Blank [] := fun _ hc => absurd hc List.not_mem_nil

lemma Blank.append (h : Blank before) (hafter : Blank after) : Blank (before ++ after) :=
  List.forall_mem_append.2 ⟨h, hafter⟩

lemma Blank.trimStart_append (h : Blank before) (cs : List Char) :
    trimStart (before ++ cs) = trimStart cs := List.dropWhile_append_of_pos h

lemma Blank.trimEnd_append (h : Blank after) (cs : List Char) :
    trimEnd (cs ++ after) = trimEnd cs := by
  have hreverse : Blank after.reverse := fun c hc => h c (List.mem_reverse.1 hc)
  rw [trimEnd, trimEnd, List.reverse_append, hreverse.trimStart_append]

lemma trimStart_eq_self (h : ∀ c, cs.head? = some c → isBlank c = false) :
    trimStart cs = cs := by
  cases cs with
  | nil => rfl
  | cons c rest => simp [trimStart, h c rfl]

lemma trimEnd_eq_self (h : ∀ c, cs.getLast? = some c → isBlank c = false) :
    trimEnd cs = cs := by
  rw [trimEnd, trimStart_eq_self, List.reverse_reverse]
  simpa using h

/-- White space at the ends of a text is all that is taken off. -/
lemma Trimmed.trim_eq (h : Trimmed cs) (hbefore : Blank before) (hafter : Blank after) :
    trim (before ++ cs ++ after) = cs := by
  rw [trim, List.append_assoc, hbefore.trimStart_append]
  cases cs with
  | nil =>
    have hnil : trimStart (after ++ []) = [] := hafter.trimStart_append []
    rw [List.append_nil] at hnil
    rw [List.nil_append, hnil]
    rfl
  | cons c rest =>
    rw [trimStart_eq_self (by simpa using h.1), hafter.trimEnd_append, trimEnd_eq_self h.2]

lemma exists_trimStart (cs : List Char) : ∃ before, Blank before ∧ cs = before ++ trimStart cs :=
  ⟨cs.takeWhile isBlank, fun _ hc => List.all_eq_true.1 List.all_takeWhile _ hc,
    List.takeWhile_append_dropWhile.symm⟩

lemma exists_trimEnd (cs : List Char) : ∃ after, Blank after ∧ cs = trimEnd cs ++ after := by
  obtain ⟨before, hbefore, hcs⟩ := exists_trimStart cs.reverse
  refine ⟨before.reverse, fun c hc => hbefore c (List.mem_reverse.1 hc), ?_⟩
  rw [trimEnd, ← List.reverse_append, ← hcs, List.reverse_reverse]

lemma exists_trim (cs : List Char) :
    ∃ before after, Blank before ∧ Blank after ∧ cs = before ++ trim cs ++ after := by
  obtain ⟨before, hbefore, hcs⟩ := exists_trimStart cs
  obtain ⟨after, hafter, hrest⟩ := exists_trimEnd (trimStart cs)
  exact ⟨before, after, hbefore, hafter, by rw [trim, List.append_assoc, ← hrest, ← hcs]⟩

@[simp] lemma dense_append (a b : List Char) : dense (a ++ b) = dense a ++ dense b :=
  List.filter_append a b

lemma Blank.dense_eq_nil (h : Blank cs) : dense cs = [] :=
  List.filter_eq_nil_iff.2 fun c hc => by simp [h c hc]

lemma dense_eq_self (h : ∀ c ∈ cs, isBlank c = false) : dense cs = cs :=
  List.filter_eq_self.2 fun c hc => by simp [h c hc]

lemma mem_dense_iff {c : Char} : c ∈ dense cs ↔ c ∈ cs ∧ isBlank c = false := by
  simp [dense]

lemma filter_dense {p : Char → Bool} (h : ∀ c, p c = true → isBlank c = false)
    (cs : List Char) : (dense cs).filter p = cs.filter p := by
  rw [dense, List.filter_filter]
  refine List.filter_congr fun c _ => ?_
  cases hc : p c with
  | false => rfl
  | true => simp [h c hc]

end Text

namespace TypeRef

open Text

/-! ## Names and what they are wrapped in -/

/-- What a type is wrapped in: a mark that excludes null, or the brackets of a list. -/
inductive Wrapping where
  | nonNull
  | list
deriving DecidableEq, Repr

/-- The mark of a type that excludes null. -/
def marks (required : Bool) : List Wrapping := if required then [.nonNull] else []

/-- What the name of a reference is wrapped in, from the outside in. -/
def wrappings : TypeRef → List Wrapping
  | .named _ required => marks required
  | .list item required => marks required ++ .list :: item.wrappings

/-- A mark does not stand on a mark. -/
def Alternate (ws : List Wrapping) : Prop := ws.IsChain fun a b => ¬ (a = .nonNull ∧ b = .nonNull)

/-- The characters of a name in its wrappings, which are put on from the inside out. -/
def wrapped (name : String) : List Wrapping → List Char
  | [] => name.toList
  | .nonNull :: ws => wrapped name ws ++ ['!']
  | .list :: ws => '[' :: (wrapped name ws ++ [']'])

/-- Trees are known from their names and wrappings. -/
theorem eq_of_wrappings_eq {t u : TypeRef} (hname : t.namedType = u.namedType)
    (hws : t.wrappings = u.wrappings) : t = u := by
  induction t generalizing u with
  | named name required =>
    cases u with
    | named name' required' =>
      cases required <;> cases required' <;> simp_all [wrappings, marks, namedType]
    | list item required' => cases required <;> cases required' <;> simp [wrappings, marks] at hws
  | list item required ih =>
    cases u with
    | named name required' => cases required <;> cases required' <;> simp [wrappings, marks] at hws
    | list item' required' =>
      have hboth : required = required' ∧ item.wrappings = item'.wrappings := by
        cases required <;> cases required' <;> simp_all [wrappings, marks]
      rw [ih (u := item') hname hboth.2, hboth.1]

lemma alternate_wrappings (t : TypeRef) : Alternate t.wrappings := by
  induction t with
  | named name required => cases required <;> simp [Alternate, wrappings, marks]
  | list item required ih =>
    have hitem : Alternate (.list :: item.wrappings) := by
      cases hws : item.wrappings with
      | nil => exact .singleton _
      | cons w ws => exact List.isChain_cons_cons.2 ⟨by simp, hws ▸ ih⟩
    cases required with
    | false => exact hitem
    | true => exact List.isChain_cons_cons.2 ⟨by simp, hitem⟩

lemma chars_eq_wrapped (t : TypeRef) : t.chars = wrapped t.namedType t.wrappings := by
  induction t with
  | named name required =>
    cases required <;> simp [chars, mark, wrapped, namedType, wrappings, marks]
  | list item required ih =>
    cases required <;> simp [chars, ih, mark, wrapped, namedType, wrappings, marks]

lemma isList_iff_mem_wrappings (t : TypeRef) :
    t.isList = true ↔ Wrapping.list ∈ t.wrappings := by
  cases t with
  | named name required => cases required <;> simp [isList, wrappings, marks]
  | list item required => simp [isList, wrappings]

lemma isRequired_iff_head?_wrappings (t : TypeRef) :
    t.isRequired = true ↔ t.wrappings.head? = some .nonNull := by
  cases t with
  | named name required => cases required <;> simp [isRequired, wrappings, marks]
  | list item required => cases required <;> simp [isRequired, wrappings, marks]

/-! ## The grammar -/

/-- A token with white space around it. -/
def Token (token cs : List Char) : Prop :=
  ∃ before after, Blank before ∧ Blank after ∧ cs = before ++ token ++ after

/-- The kinds of phrases. -/
inductive Phrase where
  | reference
  | nullable
deriving DecidableEq, Repr

/-- A text is a phrase of a kind, with a name in some wrappings. -/
inductive Derives : Phrase → List Char → String → List Wrapping → Prop
  | name {name : String} {cs : List Char} (isName : isName name.toList = true)
      (token : Token name.toList cs) : Derives .nullable cs name []
  | list {opening cs closing : List Char} {name : String} {ws : List Wrapping}
      (bracket : Token ['['] opening) (item : Derives .reference cs name ws)
      (bracket' : Token [']'] closing) :
      Derives .nullable (opening ++ cs ++ closing) name (.list :: ws)
  | unmarked {cs : List Char} {name : String} {ws : List Wrapping}
      (h : Derives .nullable cs name ws) : Derives .reference cs name ws
  | marked {cs closing : List Char} {name : String} {ws : List Wrapping}
      (h : Derives .nullable cs name ws) (mark : Token ['!'] closing) :
      Derives .reference (cs ++ closing) name (.nonNull :: ws)

/-! ## What is read is derived -/

/-- What may stand behind a nullable reference: white space, and the mark where null is excluded. -/
def Ending (required : Bool) (cs : List Char) : Prop :=
  if required then Token ['!'] cs else Blank cs

lemma dropLast?_eq_some_iff {c : Char} {cs rest : List Char} :
    dropLast? c cs = some rest ↔ cs = rest ++ [c] := by
  unfold dropLast?
  constructor
  · intro h
    split at h
    · next hlast =>
      obtain ⟨front, rfl⟩ := List.getLast?_eq_some_iff.1 hlast
      simpa using h
    · cases h
  · rintro rfl
    simp

/-- What is peeled off a text is white space, and a mark with white space around it. -/
lemma exists_ending {cs core : List Char} {required : Bool}
    (h : splitMark (trim cs) = (core, required)) :
    ∃ before ending, Blank before ∧ Ending required ending ∧ cs = before ++ core ++ ending := by
  obtain ⟨before, after, hbefore, hafter, hcs⟩ := exists_trim cs
  rw [splitMark] at h
  split at h
  · next rest hrest =>
    cases h
    obtain ⟨blank, hblank, hcore⟩ := exists_trimEnd rest
    refine ⟨before, blank ++ ['!'] ++ after, hbefore, ⟨blank, after, hblank, hafter, rfl⟩, ?_⟩
    calc
      cs = before ++ (rest ++ ['!']) ++ after := by rw [← dropLast?_eq_some_iff.1 hrest, ← hcs]
      _ = before ++ (trimEnd rest ++ blank ++ ['!']) ++ after := by rw [← hcore]
      _ = before ++ trimEnd rest ++ (blank ++ ['!'] ++ after) := by simp
  · cases h
    exact ⟨before, after, hbefore, hafter, hcs⟩

/-- Nothing is peeled off a text that has none of this at its ends. -/
theorem splitMark_trim {core before ending : List Char} {required : Bool} (hcore : Trimmed core)
    (hne : core ≠ []) (hmark : core.getLast? ≠ some '!') (hbefore : Blank before)
    (hending : Ending required ending) :
    splitMark (trim (before ++ core ++ ending)) = (core, required) := by
  cases required with
  | false =>
    have hnone : dropLast? '!' core = none := if_neg hmark
    rw [hcore.trim_eq hbefore hending, splitMark, hnone]
  | true =>
    obtain ⟨blank, after, hblank, hafter, rfl⟩ := hending
    have hmarked : Trimmed (core ++ blank ++ ['!']) := by
      refine ⟨fun c hc => hcore.1 c ?_, fun c hc => ?_⟩
      · cases core with
        | nil => exact absurd rfl hne
        | cons c' rest => simpa using hc
      · have hlast : c = '!' := by simpa using hc.symm
        rw [hlast]
        decide
    have hall : before ++ core ++ (blank ++ ['!'] ++ after) =
        before ++ (core ++ blank ++ ['!']) ++ after := by simp
    have hdrop : dropLast? '!' (core ++ blank ++ ['!']) = some (core ++ blank) :=
      dropLast?_eq_some_iff.2 rfl
    rw [hall, hmarked.trim_eq hbefore hafter, splitMark, hdrop]
    simp only
    rw [hblank.trimEnd_append, trimEnd_eq_self hcore.2]

lemma ofChars?_of_bracket {cs inner : List Char} {required : Bool}
    (h : splitMark (trim cs) = ('[' :: (inner ++ [']']), required)) :
    ofChars? cs = (ofChars? inner).map (.list · required) := by
  have hdrop : dropLast? ']' (inner ++ [']']) = some inner := dropLast?_eq_some_iff.2 rfl
  rw [ofChars?]
  split
  · next rest hrest =>
    rw [h] at hrest
    cases hrest
    split
    · next inner' hinner =>
      cases hdrop.symm.trans hinner
      show (ofChars? inner).map (TypeRef.list · (splitMark (trim cs)).2) = _
      rw [h]
    · next hnone => cases hdrop.symm.trans hnone
  · next hnone => exact absurd (congrArg Prod.fst h) (hnone _)

lemma ofChars?_of_name {cs name : List Char} {required : Bool} (hname : isName name = true)
    (h : splitMark (trim cs) = (name, required)) :
    ofChars? cs = some (.named (String.ofList name) required) := by
  rw [ofChars?]
  split
  · next rest hrest =>
    rw [h] at hrest
    simp only at hrest
    have hstart : isNameStart '[' = false := by decide
    rw [hrest, isName, hstart] at hname
    cases hname
  · next hnone =>
    rw [h]
    simp [hname]

/-- Where a text is read, what is left of it is in brackets or a name. -/
lemma exists_of_ofChars?_eq_some {cs : List Char} {t : TypeRef} (h : ofChars? cs = some t) :
    ∃ core required, splitMark (trim cs) = (core, required) ∧
      ((∃ inner item, core = '[' :: (inner ++ [']']) ∧ inner.length < cs.length ∧
          ofChars? inner = some item ∧ t = .list item required) ∨
        isName core = true ∧ t = .named (String.ofList core) required) := by
  refine ⟨(splitMark (trim cs)).1, (splitMark (trim cs)).2, rfl, ?_⟩
  rw [ofChars?] at h
  split at h
  · next rest hrest =>
    split at h
    · next inner hinner =>
      obtain ⟨item, hitem, rfl⟩ := Option.map_eq_some_iff.1 h
      have hshorter := length_inner_lt hrest hinner
      rw [dropLast?_eq_some_iff] at hinner
      exact .inl ⟨inner, item, by rw [hrest, hinner], hshorter, hitem, rfl⟩
    · cases h
  · split at h
    · next hname =>
      cases h
      exact .inr ⟨hname, rfl⟩
    · cases h

lemma Ending.append_left {blank ending : List Char} {required : Bool} (hblank : Blank blank)
    (h : Ending required ending) : Ending required (blank ++ ending) := by
  cases required with
  | false => exact hblank.append h
  | true =>
    obtain ⟨before, after, hbefore, hafter, rfl⟩ := h
    exact ⟨blank ++ before, after, hblank.append hbefore, hafter, by simp⟩

lemma Ending.append_right {blank ending : List Char} {required : Bool}
    (h : Ending required ending) (hblank : Blank blank) : Ending required (ending ++ blank) := by
  cases required with
  | false => exact Blank.append h hblank
  | true =>
    obtain ⟨before, after, hbefore, hafter, rfl⟩ := h
    exact ⟨before, after ++ blank, hbefore, hafter.append hblank, by simp⟩

/-- A phrase that may have white space behind it may have any ending. -/
lemma Derives.of_ending {cs ending : List Char} {name : String} {ws : List Wrapping}
    (h : ∀ after, Blank after → Derives .nullable (cs ++ after) name ws) {required : Bool}
    (hending : Ending required ending) :
    Derives .reference (cs ++ ending) name (marks required ++ ws) := by
  cases required with
  | false => exact .unmarked (h ending hending)
  | true =>
    obtain ⟨before, after, hbefore, hafter, rfl⟩ := hending
    have hmark : Token ['!'] (['!'] ++ after) := ⟨[], after, blank_nil, hafter, rfl⟩
    have hmarked := Derives.marked (h before hbefore) hmark
    simpa [marks] using hmarked

/-- **What is read is derived.** -/
theorem derives_of_ofChars? (cs : List Char) (t : TypeRef) (h : ofChars? cs = some t) :
    Derives .reference cs t.namedType t.wrappings := by
  induction hlength : cs.length using Nat.strongRecOn generalizing cs t with
  | _ n ih =>
  subst hlength
  obtain ⟨core, required, hsplit, hcases⟩ := exists_of_ofChars?_eq_some h
  obtain ⟨before, ending, hbefore, hending, hcs⟩ := exists_ending hsplit
  rcases hcases with ⟨inner, item, rfl, hshorter, hitem, rfl⟩ | ⟨hname, rfl⟩
  · have hinner := ih inner.length hshorter inner item hitem rfl
    have hopening : Token ['['] (before ++ ['[']) := ⟨before, [], hbefore, blank_nil, by simp⟩
    rw [hcs]
    refine .of_ending (fun after hafter => ?_) hending
    have hclosing : Token [']'] ([']'] ++ after) := ⟨[], after, blank_nil, hafter, rfl⟩
    simpa [namedType] using Derives.list hopening hinner hclosing
  · rw [hcs, wrappings, ← List.append_nil (marks required)]
    refine .of_ending (fun after hafter => .name ?_ ⟨before, after, hbefore, hafter, ?_⟩) hending
    · simpa [namedType] using hname
    · simp [namedType]

/-! ## What is derived is read -/

lemma toNat_lt_of_isNamePart {c : Char} (h : isNamePart c = true) : c.toNat < 128 := by
  have hbound : ∀ high : UInt32, high.toNat < 128 → c.val ≤ high → c.toNat < 128 :=
    fun high hhigh hc => Nat.lt_of_le_of_lt (UInt32.le_iff_toNat_le.1 hc) hhigh
  rcases Bool.or_eq_true_iff.1 h with hletter | hline
  · rcases Bool.or_eq_true_iff.1 hletter with halpha | hdigit
    · rcases Bool.or_eq_true_iff.1 halpha with hupper | hlower
      · exact hbound 90 (by decide) (of_decide_eq_true hupper).2
      · exact hbound 122 (by decide) (of_decide_eq_true (Bool.and_eq_true_iff.1 hlower).2)
    · exact hbound 57 (by decide) (of_decide_eq_true (Bool.and_eq_true_iff.1 hdigit).2)
  · rw [beq_iff_eq.1 hline]
    decide

/-- A name has no white space, no mark and no brackets in it. -/
lemma plain_of_isNamePart {c : Char} (h : isNamePart c = true) :
    isBlank c = false ∧ c ≠ '!' ∧ c ≠ '[' ∧ c ≠ ']' := by
  have all : ∀ n : Fin 128, isNamePart (Char.ofNat n) = true → isBlank (Char.ofNat n) = false ∧
      Char.ofNat n ≠ '!' ∧ Char.ofNat n ≠ '[' ∧ Char.ofNat n ≠ ']' := by decide +kernel
  simpa using all ⟨c.toNat, toNat_lt_of_isNamePart h⟩ (by simpa using h)

lemma isNamePart_of_isNameStart {c : Char} (h : isNameStart c = true) :
    isNamePart c = true := by
  rcases Bool.or_eq_true_iff.1 h with halpha | hline
  · exact Bool.or_eq_true_iff.2 (.inl (Bool.or_eq_true_iff.2 (.inl halpha)))
  · exact Bool.or_eq_true_iff.2 (.inr hline)

lemma isNamePart_of_mem {name : List Char} (h : isName name = true) :
    ∀ c ∈ name, isNamePart c = true := by
  cases name with
  | nil => cases h
  | cons c rest =>
    rw [isName, Bool.and_eq_true, List.all_eq_true] at h
    exact List.forall_mem_cons.2 ⟨isNamePart_of_isNameStart h.1, h.2⟩

lemma ne_nil_of_isName {name : List Char} (h : isName name = true) : name ≠ [] := by
  rintro rfl
  cases h

lemma trimmed_of_isName {name : List Char} (h : isName name = true) : Trimmed name := by
  have hplain := fun c hc => (plain_of_isNamePart (isNamePart_of_mem h c hc)).1
  exact ⟨fun c hc => hplain c (List.mem_of_mem_head? hc),
    fun c hc => hplain c (List.mem_of_getLast? hc)⟩

lemma trimmed_bracket (inner : List Char) : Trimmed ('[' :: (inner ++ [']'])) := by
  refine ⟨fun c hc => ?_, fun c hc => ?_⟩
  · cases hc
    decide
  · have hlast : c = ']' := by simpa [List.getLast?_cons] using hc.symm
    rw [hlast]
    decide

/-- **What is derived is read.**  A phrase is read with white space in front of it and, where the
grammar has one, a mark behind it. -/
theorem Derives.exists_ofChars? {p : Phrase} {cs : List Char} {name : String}
    {ws : List Wrapping} (h : Derives p cs name ws) {before ending : List Char} {required : Bool}
    (hbefore : Blank before) (hending : Ending required ending)
    (hmark : p = .reference → required = false) :
    ∃ t, ofChars? (before ++ cs ++ ending) = some t ∧ t.namedType = name ∧
      t.wrappings = marks required ++ ws := by
  -- The reader gets the phrase with blanks in front and perhaps a mark behind.
  induction h generalizing before ending required with
  | @name name cs hname token =>
    obtain ⟨before', after, hbefore', hafter, rfl⟩ := token
    have hlast : name.toList.getLast? ≠ some '!' := by
      intro hlast
      have hpart := isNamePart_of_mem hname '!' (List.mem_of_getLast? hlast)
      exact (plain_of_isNamePart hpart).2.1 rfl
    have hsplit := splitMark_trim (trimmed_of_isName hname) (ne_nil_of_isName hname) hlast
      (hbefore.append hbefore') (hending.append_left hafter)
    refine ⟨.named name required, ?_, rfl, (List.append_nil _).symm⟩
    have hall : before ++ (before' ++ name.toList ++ after) ++ ending =
        before ++ before' ++ name.toList ++ (after ++ ending) := by simp
    rw [hall, ofChars?_of_name hname hsplit, String.ofList_toList]
  | @list opening cs closing name ws bracket item bracket' ih =>
    obtain ⟨before', inside, hbefore', hinside, rfl⟩ := bracket
    obtain ⟨inside', after, hinside', hafter, rfl⟩ := bracket'
    obtain ⟨t, ht, htname, htws⟩ := @ih inside inside' false hinside hinside' fun _ => rfl
    have hlast : ('[' :: (inside ++ cs ++ inside' ++ [']'])).getLast? ≠ some '!' := by
      simp [List.getLast?_cons]
    have hsplit := splitMark_trim (trimmed_bracket (inside ++ cs ++ inside')) (by simp) hlast
      (hbefore.append hbefore') (hending.append_left hafter)
    refine ⟨.list t required, ?_, htname, ?_⟩
    · have hall : before ++ (before' ++ ['['] ++ inside ++ cs ++ (inside' ++ [']'] ++ after)) ++
            ending =
          before ++ before' ++ '[' :: (inside ++ cs ++ inside' ++ [']']) ++ (after ++ ending) := by
        simp
      rw [hall, ofChars?_of_bracket hsplit, ht, Option.map_some]
    · rw [wrappings, htws]
      rfl
  | unmarked h ih =>
    exact ih hbefore hending fun hp => nomatch hp
  | @marked cs closing name ws h mark ih =>
    cases hmark rfl
    have hmarked : Ending true (closing ++ ending) := Ending.append_right mark hending
    obtain ⟨t, ht, htname, htws⟩ := ih hbefore hmarked fun hp => nomatch hp
    exact ⟨t, by simpa using ht, htname, htws⟩

lemma derives_iff {cs : List Char} {name : String} {ws : List Wrapping} :
    Derives .reference cs name ws ↔
      ∃ t, ofChars? cs = some t ∧ t.namedType = name ∧ t.wrappings = ws := by
  constructor
  · intro h
    have hread := @Derives.exists_ofChars? _ _ _ _ h [] [] false blank_nil blank_nil fun _ => rfl
    simpa [marks] using hread
  · rintro ⟨t, ht, rfl, rfl⟩
    exact derives_of_ofChars? cs t ht

/-! ## The text without its white space -/

section Wrapped

variable {name : String} {ws : List Wrapping} (hname : isName name.toList = true)
include hname

lemma filter_wrapped : (wrapped name ws).filter isNamePart = name.toList := by
  have hmark : isNamePart '!' = false ∧ isNamePart '[' = false ∧ isNamePart ']' = false := by
    decide
  induction ws with
  | nil => exact List.filter_eq_self.2 (isNamePart_of_mem hname)
  | cons w ws ih => cases w <;> simp [wrapped, ih, hmark]

lemma bracket_mem_wrapped_iff : '[' ∈ wrapped name ws ↔ .list ∈ ws := by
  induction ws with
  | nil =>
    have hplain : '[' ∉ name.toList := fun hmem =>
      (plain_of_isNamePart (isNamePart_of_mem hname '[' hmem)).2.2.1 rfl
    simpa [wrapped] using hplain
  | cons w ws ih => cases w <;> simp [wrapped, ih]

lemma getLast?_wrapped_iff :
    (wrapped name ws).getLast? = some '!' ↔ ws.head? = some .nonNull := by
  cases ws with
  | nil =>
    have hplain : name.toList.getLast? ≠ some '!' := fun hlast =>
      (plain_of_isNamePart (isNamePart_of_mem hname '!' (List.mem_of_getLast? hlast))).2.1 rfl
    simpa [wrapped] using hplain
  | cons w ws => cases w <;> simp [wrapped, List.getLast?_cons]

lemma dense_name : dense name.toList = name.toList :=
  dense_eq_self fun c hc => (plain_of_isNamePart (isNamePart_of_mem hname c hc)).1

end Wrapped

lemma Derives.isName {p : Phrase} {cs : List Char} {name : String} {ws : List Wrapping}
    (h : Derives p cs name ws) : isName name.toList = true := by
  induction h with
  | name isName _ => exact isName
  | list _ _ _ ih | unmarked _ ih | marked _ _ ih => exact ih

lemma Token.dense_eq {token cs : List Char} (h : Token token cs) : dense cs = dense token := by
  obtain ⟨before, after, hbefore, hafter, rfl⟩ := h
  simp [hbefore.dense_eq_nil, hafter.dense_eq_nil]

/-- A phrase is the characters of its name in its wrappings, with white space in between. -/
lemma Derives.dense_eq {p : Phrase} {cs : List Char} {name : String} {ws : List Wrapping}
    (h : Derives p cs name ws) : dense cs = wrapped name ws := by
  induction h with
  | name hname token => exact token.dense_eq.trans (dense_name hname)
  | list bracket _ bracket' ih =>
    rw [dense_append, dense_append, bracket.dense_eq, bracket'.dense_eq, ih]
    rfl
  | unmarked _ ih => exact ih
  | marked _ mark ih =>
    rw [dense_append, mark.dense_eq, ih]
    rfl

/-- A name in wrappings of which no mark stands on a mark is a phrase. -/
lemma derives_wrapped {name : String} {ws : List Wrapping} (hname : isName name.toList = true)
    (hws : Alternate ws) : Derives .reference (wrapped name ws) name ws ∧
      (ws.head? ≠ some .nonNull → Derives .nullable (wrapped name ws) name ws) := by
  have htoken : ∀ token : List Char, Token token token :=
    fun token => ⟨[], [], blank_nil, blank_nil, (List.append_nil token).symm⟩
  induction ws with
  | nil =>
    have h : Derives .nullable (wrapped name []) name [] := .name hname (htoken _)
    exact ⟨.unmarked h, fun _ => h⟩
  | cons w ws ih =>
    obtain ⟨hnext, htail⟩ := List.isChain_cons.1 hws
    have hrest := ih htail
    cases w with
    | nonNull =>
      have hhead : ws.head? ≠ some .nonNull := fun hhead => hnext .nonNull hhead ⟨rfl, rfl⟩
      exact ⟨.marked (hrest.2 hhead) (htoken ['!']), fun h => absurd rfl h⟩
    | list =>
      have h : Derives .nullable (wrapped name (.list :: ws)) name (.list :: ws) :=
        .list (htoken ['[']) hrest.1 (htoken [']'])
      exact ⟨.unmarked h, fun _ => h⟩

/-! ## Reading and writing -/

lemma parse_eq_ok_iff {s : String} {t : TypeRef} :
    parse s = .ok t ↔ ofChars? s.toList = some t := by
  rw [parse, parse?]
  split <;> simp_all

lemma parse_eq_error_iff {s : String} {e : InvalidTypeRef} :
    parse s = .error e ↔ e = ⟨s⟩ ∧ ofChars? s.toList = none := by
  rw [parse, parse?]
  cases ofChars? s.toList <;> simp [eq_comm]

/-- **Type references are read by their grammar.**

A text is read if and only if it derives a reference.  What is read has the name and the wrappings
that are derived, so its name is all there is of name characters in the text, it is a list where
there is a bracket in the text, and it excludes null where the text, but for white space, ends in a
mark.  Any other text is refused, and the error carries it as it is. -/
theorem parse_eq_ok_iff_derives (s : String) :
    (∀ name ws, Derives .reference s.toList name ws ↔
      ∃ t, parse s = .ok t ∧ t.namedType = name ∧ t.wrappings = ws) ∧
    (∀ e, parse s = .error e ↔ e = ⟨s⟩ ∧ ∀ name ws, ¬ Derives .reference s.toList name ws) ∧
    ∀ t, parse s = .ok t →
      t.namedType.toList = s.toList.filter isNamePart ∧
      (t.isList = true ↔ '[' ∈ s.toList) ∧
      (t.isRequired = true ↔ (dense s.toList).getLast? = some '!') := by
  refine ⟨fun name ws => ?_, fun e => ?_, fun t ht => ?_⟩
  · simp only [parse_eq_ok_iff, derives_iff]
  · have hnone : ofChars? s.toList = none ↔ ∀ name ws, ¬ Derives .reference s.toList name ws := by
      constructor
      · intro hnone name ws h
        obtain ⟨t, ht, -⟩ := derives_iff.1 h
        exact nomatch hnone.symm.trans ht
      · intro h
        exact Option.eq_none_iff_forall_ne_some.2 fun t ht => h _ _ (derives_of_ofChars? _ t ht)
    rw [parse_eq_error_iff, hnone]
  · have h := derives_of_ofChars? _ _ (parse_eq_ok_iff.1 ht)
    refine ⟨?_, ?_, ?_⟩
    · rw [← filter_dense (fun c hc => (plain_of_isNamePart hc).1), h.dense_eq,
        filter_wrapped h.isName]
    · rw [isList_iff_mem_wrappings, ← bracket_mem_wrapped_iff h.isName, ← h.dense_eq, mem_dense_iff]
      exact and_iff_left (by decide)
    · rw [isRequired_iff_head?_wrappings, h.dense_eq, getLast?_wrapped_iff h.isName]

/-- A list within a list, with white space around every token. -/
def spaced : String := "  [ [Comment !\t]\u00a0] !"

/-- The reference that it is. -/
def comments : TypeRef := .list (.list (.named "Comment" true) false) true

lemma parse_spaced : parse spaced = .ok comments := by decide +kernel

theorem parse_eq_ok_iff_derives_comments :
    parse spaced = .ok comments ∧
      Derives .reference spaced.toList "Comment" [.nonNull, .list, .list, .nonNull] ∧
      "Comment".toList = spaced.toList.filter isNamePart := by
  have hspec := parse_eq_ok_iff_derives spaced
  exact ⟨parse_spaced, (hspec.1 _ _).2 ⟨_, parse_spaced, rfl, rfl⟩, (hspec.2.2 _ parse_spaced).1⟩

lemma text_eq_wrapped (t : TypeRef) :
    t.text = String.ofList (wrapped t.namedType t.wrappings) := by
  rw [text, chars_eq_wrapped]

/-- A name in wrappings of which no mark stands on a mark is read as the reference that it is. -/
lemma exists_parse_wrapped {name : String} {ws : List Wrapping}
    (hname : isName name.toList = true) (hws : Alternate ws) :
    ∃ t, t.namedType = name ∧ t.wrappings = ws ∧ parse t.text = .ok t := by
  obtain ⟨t, ht, rfl, rfl⟩ := derives_iff.1 (derives_wrapped hname hws).1
  refine ⟨t, rfl, rfl, ?_⟩
  rw [parse_eq_ok_iff, text_eq_wrapped, String.toList_ofList, ht]

lemma parse_text_of_isName {t : TypeRef} (hname : isName t.namedType.toList = true) :
    parse t.text = .ok t := by
  obtain ⟨u, huname, huws, hu⟩ := exists_parse_wrapped hname t.alternate_wrappings
  rwa [eq_of_wrappings_eq huname huws] at hu

/-- **Type references are written without white space, and read back.**

What is written for a text that was read is the text without its white space, and is read as the
same.  And for every name, in every list of wrappings of which no mark stands on a mark, there is a
reference, which is written as the name in these wrappings, and is read back from this. -/
theorem parse_text_of_parse :
    (∀ s t, parse s = .ok t → t.text = String.ofList (dense s.toList) ∧ parse t.text = .ok t) ∧
    ∀ name ws, isName name.toList = true → Alternate ws →
      ∃ t, t.namedType = name ∧ t.wrappings = ws ∧ t.text = String.ofList (wrapped name ws) ∧
        parse t.text = .ok t := by
  refine ⟨fun s t ht => ?_, fun name ws hname hws => ?_⟩
  · have h := derives_of_ofChars? _ _ (parse_eq_ok_iff.1 ht)
    exact ⟨by rw [text_eq_wrapped, h.dense_eq], parse_text_of_isName h.isName⟩
  · obtain ⟨t, rfl, rfl, ht⟩ := exists_parse_wrapped hname hws
    exact ⟨t, rfl, rfl, t.text_eq_wrapped, ht⟩

/-- The list within a list again, from its text and from its name and wrappings. -/
theorem parse_text_of_parse_comments :
    parse spaced = .ok comments ∧ comments.text = "[[Comment!]]!" ∧
      Alternate [.nonNull, .list, .list, .nonNull] ∧
      ∃ t, t.namedType = "Comment" ∧ t.wrappings = [.nonNull, .list, .list, .nonNull] ∧
        parse t.text = .ok t := by
  have hws : Alternate [.nonNull, .list, .list, .nonNull] := by simp [Alternate]
  obtain ⟨t, hname, hwrappings, -, ht⟩ := parse_text_of_parse.2 "Comment" _ (by decide) hws
  exact ⟨parse_spaced, (parse_text_of_parse.1 _ _ parse_spaced).1.trans (by decide +kernel), hws, t,
    hname, hwrappings, ht⟩

end TypeRef

end GraphProjection
