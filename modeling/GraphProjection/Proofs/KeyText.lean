import GraphProjection.Value.Text
import Mathlib.Data.List.Basic

/-!
# Keys and their text

Rows are matched by the text of their keys.  For the values that keys are made of, null, booleans,
whole numbers and strings, the text is as good as the value: two keys with one text are the same
key (`eq_of_text_eq`), and no key has the empty text, which stands for a row without a key.

The first character tells the kinds apart.  Within the strings, escaping is a code in which no
word is the beginning of another (`escape_append_inj`), so the text can be read back word by word.
-/

namespace GraphProjection

namespace Value

/-- A value that rows are matched by. -/
def isKey : Value → Bool
  | .null | .bool _ | .int _ | .string _ => true
  | _ => false

/-! ## Strings -/

/-- The characters with an escape of their own, and what stands behind the backslash. -/
def shortEscapes : List (Char × Char) :=
  [('"', '"'), ('\\', '\\'), ('\x08', 'b'), ('\x0c', 'f'), ('\n', 'n'), ('\r', 'r'), ('\t', 't')]

/-- A character stands for itself, has an escape of its own, or is written by its number. -/
lemma escape_cases (c : Char) :
    (c ≠ '\\' ∧ escape c = [c]) ∨ (∃ e, (c, e) ∈ shortEscapes ∧ escape c = ['\\', e]) ∨
      (c.toNat < 32 ∧ escape c =
        ['\\', 'u', '0', '0', hexDigit (c.toNat / 16), hexDigit (c.toNat % 16)]) := by
  unfold escape
  split
  · next h => exact .inr (.inl ⟨'"', by simp [h, shortEscapes], rfl⟩)
  split
  · next h => exact .inr (.inl ⟨'\\', by simp [h, shortEscapes], rfl⟩)
  next hslash =>
  split
  · next h => exact .inr (.inl ⟨'b', by simp [h, shortEscapes], rfl⟩)
  split
  · next h => exact .inr (.inl ⟨'f', by simp [h, shortEscapes], rfl⟩)
  split
  · next h => exact .inr (.inl ⟨'n', by simp [h, shortEscapes], rfl⟩)
  split
  · next h => exact .inr (.inl ⟨'r', by simp [h, shortEscapes], rfl⟩)
  split
  · next h => exact .inr (.inl ⟨'t', by simp [h, shortEscapes], rfl⟩)
  split
  · next h => exact .inr (.inr ⟨h, rfl⟩)
  · exact .inl ⟨hslash, rfl⟩

lemma shortEscapes_inj {c d e : Char} (hc : (c, e) ∈ shortEscapes)
    (hd : (d, e) ∈ shortEscapes) : c = d := by
  have hall : ∀ p ∈ shortEscapes, ∀ q ∈ shortEscapes, p.2 = q.2 → p.1 = q.1 := by decide
  exact hall _ hc _ hd rfl

lemma u_notMem_shortEscapes (c : Char) : (c, 'u') ∉ shortEscapes := by
  simp [shortEscapes]

lemma hexDigit_inj {a b : Nat} (ha : a < 16) (hb : b < 16) (h : hexDigit a = hexDigit b) :
    a = b := by
  have hall : ∀ a < 16, ∀ b < 16, hexDigit a = hexDigit b → a = b := by decide
  exact hall a ha b hb h

/-- No escaped character is the beginning of another one. -/
theorem escape_append_inj {c d : Char} {x y : List Char}
    (h : escape c ++ x = escape d ++ y) : c = d ∧ x = y := by
  rcases escape_cases c with ⟨hc, ec⟩ | ⟨e, hc, ec⟩ | ⟨hc, ec⟩ <;>
    rcases escape_cases d with ⟨hd, ed⟩ | ⟨e', hd, ed⟩ | ⟨hd, ed⟩ <;>
    rw [ec, ed] at h <;>
    simp only [List.cons_append, List.nil_append, List.cons.injEq] at h
  · exact h
  · exact absurd h.1 hc
  · exact absurd h.1 hc
  · exact absurd h.1.symm hd
  · obtain ⟨-, rfl, hxy⟩ := h
    exact ⟨shortEscapes_inj hc hd, hxy⟩
  · exact absurd (h.2.1 ▸ hc) (u_notMem_shortEscapes c)
  · exact absurd h.1.symm hd
  · exact absurd (h.2.1.symm ▸ hd) (u_notMem_shortEscapes d)
  · obtain ⟨-, -, -, -, hhigh, hlow, hxy⟩ := h
    have hdiv := hexDigit_inj (by omega) (by omega) hhigh
    have hmod := hexDigit_inj (by omega) (by omega) hlow
    exact ⟨Char.toNat_inj.1 (by omega), hxy⟩

lemma eq_of_flatMap_escape_eq {as bs : List Char}
    (h : as.flatMap escape = bs.flatMap escape) : as = bs := by
  have hne (c : Char) (x : List Char) : escape c ++ x ≠ [] := by
    rcases escape_cases c with ⟨-, hc⟩ | ⟨e, -, hc⟩ | ⟨-, hc⟩ <;> simp [hc]
  induction as generalizing bs with
  | nil =>
    cases bs with
    | nil => rfl
    | cons b rest => exact absurd h.symm (hne b _)
  | cons a rest ih =>
    cases bs with
    | nil => exact absurd h (hne a _)
    | cons b others =>
      obtain ⟨hab, hrest⟩ := escape_append_inj h
      rw [hab, ih hrest]

lemma quoted_inj {s t : String} (h : quoted s = quoted t) : s = t := by
  have hescaped : s.toList.flatMap escape = t.toList.flatMap escape :=
    List.append_cancel_right (List.cons.inj h).2
  exact String.toList_inj.1 (eq_of_flatMap_escape_eq hescaped)

/-! ## Whole numbers -/

lemma toDigits_inj {m n : Nat} (h : Nat.toDigits 10 m = Nat.toDigits 10 n) : m = n := by
  rw [← Nat.ofDigitChars_ten_toDigits (n := m), h, Nat.ofDigitChars_ten_toDigits]

lemma isDigit_head_toDigits (n : Nat) :
    ∃ c rest, Nat.toDigits 10 n = c :: rest ∧ c.isDigit = true := by
  cases h : Nat.toDigits 10 n with
  | nil => exact absurd h Nat.toDigits_ne_nil
  | cons c rest =>
    have hmem : c ∈ Nat.toDigits 10 n := h ▸ List.mem_cons_self
    exact ⟨c, rest, rfl, Nat.isDigit_of_mem_toDigits (by omega) (by omega) hmem⟩

lemma intChars_inj {m n : Int} (h : intChars m = intChars n) : m = n := by
  have hminus (k l : Nat) : Nat.toDigits 10 k ≠ '-' :: Nat.toDigits 10 l := by
    obtain ⟨c, rest, hc, hdigit⟩ := isDigit_head_toDigits k
    rw [hc]
    intro heq
    rw [(List.cons.inj heq).1] at hdigit
    exact absurd hdigit (by decide)
  cases m with
  | ofNat k =>
    cases n with
    | ofNat l => exact congrArg Int.ofNat (toDigits_inj h)
    | negSucc l => exact absurd h (hminus k (l + 1))
  | negSucc k =>
    cases n with
    | ofNat l => exact absurd h.symm (hminus l (k + 1))
    | negSucc l => exact congrArg Int.negSucc (Nat.succ.inj (toDigits_inj (List.cons.inj h).2))

/-! ## Keys -/

/-- The kinds of keys. -/
inductive KeyKind where
  | null
  | bool
  | int
  | string
deriving DecidableEq

/-- The kind of a key. -/
def keyKind : Value → KeyKind
  | .null => .null
  | .bool _ => .bool
  | .int _ => .int
  | _ => .string

/-- The kind of the keys whose text begins with a character. -/
def kindOfHead (c : Char) : KeyKind :=
  if c = 'n' then .null else if c = 't' ∨ c = 'f' then .bool else if c = '"' then .string else .int

lemma kindOfHead_of_isDigit {c : Char} (h : c.isDigit = true) : kindOfHead c = .int := by
  have hne (d : Char) (hd : d.isDigit = false) : c ≠ d := by
    rintro rfl
    rw [h] at hd
    cases hd
  rw [kindOfHead, if_neg (hne 'n' rfl), if_neg (not_or.2 ⟨hne 't' rfl, hne 'f' rfl⟩),
    if_neg (hne '"' rfl)]

lemma exists_head_of_isKey {v : Value} (h : v.isKey = true) :
    ∃ c rest, v.chars = c :: rest ∧ kindOfHead c = v.keyKind := by
  cases v with
  | null => exact ⟨'n', _, by rw [chars], rfl⟩
  | bool b =>
    cases b with
    | false => exact ⟨'f', _, by rw [chars], rfl⟩
    | true => exact ⟨'t', _, by rw [chars], rfl⟩
  | int n =>
    rw [chars]
    cases n with
    | ofNat k =>
      obtain ⟨c, rest, hc, hdigit⟩ := isDigit_head_toDigits k
      exact ⟨c, rest, hc, kindOfHead_of_isDigit hdigit⟩
    | negSucc k => exact ⟨'-', _, rfl, rfl⟩
  | string s => exact ⟨'"', _, by rw [chars, quoted, List.cons_append], rfl⟩
  | double d => cases h
  | array items => cases h
  | object members => cases h

/-- A key has a text, which a row without the key has not. -/
lemma text_ne_empty {v : Value} (h : v.isKey = true) : v.text ≠ "" := by
  obtain ⟨c, rest, hc, -⟩ := exists_head_of_isKey h
  rw [text, hc]
  intro hempty
  have hlist := congrArg String.toList hempty
  rw [String.toList_ofList] at hlist
  cases hlist

lemma chars_eq_of_text_eq {v w : Value} (h : v.text = w.text) : v.chars = w.chars := by
  have hlist := congrArg String.toList h
  rwa [text, text, String.toList_ofList, String.toList_ofList] at hlist

/-- The value that is the same as a key is the key. -/
lemma same_iff_eq_of_isKey {v w : Value} (hv : v.isKey = true) :
    v.same w = true ↔ v = w := by
  cases v with
  | null => cases w <;> simp [same]
  | bool a => cases w <;> simp [same]
  | int m => cases w <;> simp [same]
  | string s => cases w <;> simp [same]
  | double _ => cases hv
  | array _ => cases hv
  | object _ => cases hv

/-- **Keys with the same text are the same.** -/
theorem eq_of_text_eq {v w : Value} (hv : v.isKey = true) (hw : w.isKey = true)
    (h : v.text = w.text) : v = w := by
  have hchars := chars_eq_of_text_eq h
  obtain ⟨c, x, hc, hkind⟩ := exists_head_of_isKey hv
  obtain ⟨d, y, hd, hkind'⟩ := exists_head_of_isKey hw
  -- The first character tells the kind of a key, so only keys of one kind are left to compare.
  have hsame : v.keyKind = w.keyKind := by
    rw [hc, hd] at hchars
    rw [← hkind, ← hkind', (List.cons.inj hchars).1]
  clear hc hd hkind hkind'
  cases v with
  | null => cases w <;> first | rfl | cases hsame
  | bool a =>
    cases w with
    | bool b => cases a <;> cases b <;> first | rfl | cases hchars
    | _ => cases hsame
  | int m =>
    cases w with
    | int n =>
      rw [chars, chars] at hchars
      exact congrArg Value.int (intChars_inj hchars)
    | _ => cases hsame
  | string s =>
    cases w with
    | string t =>
      rw [chars, chars] at hchars
      exact congrArg Value.string (quoted_inj hchars)
    | double _ => cases hw
    | array _ => cases hw
    | object _ => cases hw
    | _ => cases hsame
  | double _ => cases hv
  | array _ => cases hv
  | object _ => cases hv

end Value

end GraphProjection
