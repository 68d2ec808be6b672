import GraphProjection.Document.Token
import Mathlib.Data.List.Nodup

/-!
# Where tokens stand

Every reader of a lexeme takes characters off the front of a text and leaves the rest as it is
(`Lexeme.shorter_of_read?`), so the bytes in front of what is left only ever grow.

Main statement: `Token.standsIn_of_scan`, the tokens of a text stand in the text where they say and
are in order, so a token is known by the number of bytes in front of it (`Token.eq_of_offset_eq`).
-/

namespace GraphProjection

namespace Lexeme

variable {cs rest : List Char}

/-- The text behind something that was read: a part of the text at its end, and not all of it. -/
def Shorter (rest cs : List Char) : Prop := rest <:+ cs ∧ rest.length < cs.length

lemma Shorter.of_suffix_tail {c : Char} {behind : List Char} (h : rest <:+ behind) :
    Shorter rest (c :: behind) :=
  ⟨h.trans (List.suffix_cons _ _), Nat.lt_succ_of_le h.length_le⟩

/-! ## Numbers -/

lemma suffix_spanDigits (cs : List Char) : (Value.spanDigits cs).2 <:+ cs :=
  List.dropWhile_suffix _

lemma suffix_of_readFraction {digits : List Char}
    (h : Value.readFraction cs = some (digits, rest)) : rest <:+ cs := by
  unfold Value.readFraction at h
  split at h
  · next behind =>
    simp only [Option.ite_none_left_eq_some, Option.some.injEq, Prod.mk.injEq] at h
    obtain ⟨-, -, rfl⟩ := h
    exact (suffix_spanDigits behind).trans (List.suffix_cons _ _)
  · cases h
    exact List.suffix_rfl

lemma suffix_of_readExponent {exponent : Option Int}
    (h : Value.readExponent cs = some (exponent, rest)) : rest <:+ cs := by
  unfold Value.readExponent at h
  split at h
  · next mark behind =>
    split at h
    · simp only at h
      -- The digits stand behind a sign, if there is one.
      split at h
      all_goals
        simp only [Option.ite_none_left_eq_some, Option.some.injEq, Prod.mk.injEq] at h
        obtain ⟨-, -, rfl⟩ := h
      · exact (suffix_spanDigits _).trans ((List.suffix_cons _ _).trans (List.suffix_cons _ _))
      · exact (suffix_spanDigits _).trans ((List.suffix_cons _ _).trans (List.suffix_cons _ _))
      · exact (suffix_spanDigits _).trans (List.suffix_cons _ _)
    · cases h
      exact List.suffix_rfl
  · cases h
    exact List.suffix_rfl

/-- Digits that are there take a character at least. -/
lemma shorter_of_spanDigits {unsigned : List Char}
    (hdigits : (Value.spanDigits unsigned).1.isEmpty = false)
    (h : rest <:+ (Value.spanDigits unsigned).2) : Shorter rest unsigned := by
  have hlength : (Value.spanDigits unsigned).1.length + (Value.spanDigits unsigned).2.length =
      unsigned.length := by
    rw [← List.length_append]
    exact congrArg List.length List.takeWhile_append_dropWhile
  have hpos : 0 < (Value.spanDigits unsigned).1.length :=
    List.length_pos_iff.2 (List.isEmpty_eq_false_iff.1 hdigits)
  have hle := h.length_le
  exact ⟨h.trans (suffix_spanDigits unsigned), by omega⟩

lemma shorter_of_readNumber? {lexeme : Lexeme}
    (h : readNumber? cs = some (lexeme, rest)) : Shorter rest cs := by
  unfold readNumber? at h
  simp only at h
  split at h
  all_goals
    simp only [Option.ite_none_left_eq_some, Option.bind_eq_bind, Option.bind_eq_some_iff,
      Bool.or_eq_true, not_or, Bool.not_eq_true] at h
    obtain ⟨⟨hdigits, -⟩, ⟨fraction, behindFraction⟩, hfraction, ⟨exponent, behindExponent⟩,
      hexponent, -, h⟩ := h
    have hrest : behindExponent = rest := by
      split at h <;> exact (Prod.ext_iff.1 (Option.some.inj h)).2
    subst hrest
    have hshorter := shorter_of_spanDigits hdigits
      ((suffix_of_readExponent hexponent).trans (suffix_of_readFraction hfraction))
  · exact .of_suffix_tail hshorter.1
  · exact hshorter

/-! ## Strings -/

lemma suffix_of_readString {s : List Char} (h : readString cs = some (s, rest)) :
    rest <:+ cs := by
  fun_induction readString cs generalizing s with
  | case1 behind =>
    cases h
    exact List.suffix_cons _ _
  | case2 a b c d behind ih =>
    simp only [Option.bind_eq_bind, Option.bind_eq_some_iff] at h
    obtain ⟨_, -, ⟨_, _⟩, hbehind, h⟩ := h
    cases h
    exact (ih hbehind).trans (List.suffix_append ['\\', 'u', a, b, c, d] behind)
  | case3 c behind _ ih =>
    simp only [Option.bind_eq_bind, Option.bind_eq_some_iff] at h
    obtain ⟨_, -, ⟨_, _⟩, hbehind, h⟩ := h
    cases h
    exact (ih hbehind).trans (List.suffix_append ['\\', c] behind)
  | case4 c behind _ _ _ _ ih =>
    simp only [Option.bind_eq_bind, Option.bind_eq_some_iff] at h
    obtain ⟨⟨_, _⟩, hbehind, h⟩ := h
    cases h
    exact (ih hbehind).trans (List.suffix_cons _ _)
  | case5 => cases h
  | case6 => cases h

lemma suffix_of_readBlock {s : List Char} (h : readBlock cs = some (s, rest)) :
    rest <:+ cs := by
  fun_induction readBlock cs generalizing s with
  | case1 behind =>
    cases h
    exact List.suffix_append ['"', '"', '"'] rest
  | case2 behind ih =>
    simp only [Option.bind_eq_bind, Option.bind_eq_some_iff] at h
    obtain ⟨⟨_, _⟩, hbehind, h⟩ := h
    cases h
    exact (ih hbehind).trans (List.suffix_append ['\\', '"', '"', '"'] behind)
  | case3 c behind _ _ _ ih =>
    simp only [Option.bind_eq_bind, Option.bind_eq_some_iff] at h
    obtain ⟨⟨_, _⟩, hbehind, h⟩ := h
    cases h
    exact (ih hbehind).trans (List.suffix_cons _ _)
  | case4 => cases h
  | case5 => cases h

/-! ## Lexemes -/

/-- Every lexeme takes a character at least. -/
theorem shorter_of_read? {lexeme : Lexeme} (h : read? cs = some (lexeme, rest)) :
    Shorter rest cs := by
  unfold read? at h
  split at h
  · cases h
    exact .of_suffix_tail (List.suffix_append ['.', '.'] rest)
  · obtain ⟨⟨s, _⟩, hblock, heq⟩ := Option.map_eq_some_iff.1 h
    cases heq
    exact .of_suffix_tail ((suffix_of_readBlock hblock).trans (List.suffix_append ['"', '"'] _))
  · obtain ⟨⟨s, _⟩, hstring, heq⟩ := Option.map_eq_some_iff.1 h
    cases heq
    exact .of_suffix_tail (suffix_of_readString hstring)
  · split at h
    · cases h
      exact .of_suffix_tail List.suffix_rfl
    · split at h
      · cases h
        exact .of_suffix_tail (List.dropWhile_suffix _)
      · exact shorter_of_readNumber? h
  · cases h

end Lexeme

/-! ## Numbers of bytes -/

namespace Location

lemma bytes_le_of_suffix {rest cs : List Char} (h : rest <:+ cs) : bytes rest ≤ bytes cs := by
  obtain ⟨front, rfl⟩ := h
  rw [bytes_append]
  exact Nat.le_add_left _ _

lemma bytes_pos {cs : List Char} (h : cs ≠ []) : 0 < bytes cs := by
  cases cs with
  | nil => exact absurd rfl h
  | cons c rest => exact Nat.add_pos_left c.utf8Size_pos _

lemma bytes_lt_of_shorter {rest cs : List Char} (h : Lexeme.Shorter rest cs) :
    bytes rest < bytes cs := by
  obtain ⟨⟨front, rfl⟩, hlength⟩ := h
  rw [List.length_append] at hlength
  rw [bytes_append]
  exact Nat.lt_add_of_pos_left (bytes_pos (List.length_pos_iff.1 (by omega)))

end Location

/-! ## Tokens -/

namespace Token

open Location

/-- A token stands in a text: what is left of the text behind as many bytes as the token says starts
with the token's lexeme. -/
def StandsIn (text : List Char) (t : Token) : Prop :=
  ∃ front rest behind, text = front ++ rest ∧ t.offset = bytes front ∧
    Lexeme.read? rest = some (t.lexeme, behind)

/-- The tokens of what is left of a text stand in the text, none of them before what is left, and in
order. -/
theorem standsIn_of_scanRest {text cs : List Char} (htext : cs <:+ text) {fuel : Nat}
    {tokens : List Token} (h : scanRest (bytes text) fuel cs = some tokens) :
    (∀ t ∈ tokens, t.StandsIn text ∧ bytes text ≤ t.offset + bytes cs) ∧
      tokens.Pairwise (·.offset < ·.offset) := by
  -- The induction carries that no token stands before what is left; with it the tokens are in
  -- order.
  fun_induction scanRest (bytes text) fuel cs generalizing tokens with
  | case1 =>
    cases h
    exact ⟨fun t ht => absurd ht List.not_mem_nil, .nil⟩
  | case2 => cases h
  | case3 fuel c rest _ ih =>
    obtain ⟨hstands, hordered⟩ := ih ((List.suffix_cons c rest).trans htext) h
    refine ⟨fun t ht => ⟨(hstands t ht).1, ?_⟩, hordered⟩
    exact Nat.le_trans (hstands t ht).2
      (Nat.add_le_add_left (bytes_le_of_suffix (List.suffix_cons c rest)) _)
  | case4 fuel rest _ ih =>
    have hrest : skipComment rest <:+ '#' :: rest :=
      (List.dropWhile_suffix _).trans (List.suffix_cons _ _)
    obtain ⟨hstands, hordered⟩ := ih (hrest.trans htext) h
    refine ⟨fun t ht => ⟨(hstands t ht).1, ?_⟩, hordered⟩
    exact Nat.le_trans (hstands t ht).2 (Nat.add_le_add_left (bytes_le_of_suffix hrest) _)
  | case5 fuel c rest _ _ ih =>
    simp only [Option.bind_eq_bind, Option.bind_eq_some_iff] at h
    obtain ⟨⟨lexeme, behind⟩, hread, later, hlater, h⟩ := h
    cases h
    have hshorter := Lexeme.shorter_of_read? hread
    have hlt := bytes_lt_of_shorter hshorter
    have hle := bytes_le_of_suffix htext
    obtain ⟨hstands, hordered⟩ := ih behind (hshorter.1.trans htext) hlater
    have hfirst : StandsIn text ⟨lexeme, bytes text - bytes (c :: rest)⟩ := by
      obtain ⟨front, rfl⟩ := htext
      refine ⟨front, c :: rest, behind, rfl, ?_, hread⟩
      rw [bytes_append, Nat.add_sub_cancel]
    refine ⟨List.forall_mem_cons.2 ⟨⟨hfirst, ?_⟩, fun t ht => ⟨(hstands t ht).1, ?_⟩⟩,
      .cons (fun t ht => ?_) hordered⟩
    · exact Nat.le_of_eq (Nat.sub_add_cancel hle).symm
    · have := (hstands t ht).2
      omega
    · have := (hstands t ht).2
      show bytes text - bytes (c :: rest) < t.offset
      omega

/-- The tokens of a text stand in it, in order. -/
theorem standsIn_of_scan {text : List Char} {tokens : List Token} (h : scan text = some tokens) :
    (∀ t ∈ tokens, t.StandsIn text) ∧ tokens.Pairwise (·.offset < ·.offset) := by
  obtain ⟨hstands, hordered⟩ := standsIn_of_scanRest List.suffix_rfl h
  exact ⟨fun t ht => (hstands t ht).1, hordered⟩

/-- A token of a text is known by the number of bytes in front of it. -/
theorem eq_of_offset_eq {tokens : List Token} (h : tokens.Pairwise (·.offset < ·.offset))
    {t other : Token} (ht : t ∈ tokens) (hother : other ∈ tokens)
    (hoffset : t.offset = other.offset) : t = other := by
  have hnodup : (tokens.map (·.offset)).Nodup := List.pairwise_map.2 (h.imp Nat.ne_of_lt)
  exact List.inj_on_of_nodup_map hnodup ht hother hoffset

end Token
end GraphProjection
