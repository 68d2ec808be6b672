import GraphProjection.Query.Sql
import Mathlib.Logic.Function.Basic

/-!
# Reading identifiers back

How a reader of SQL takes a text apart is a rule of its own and knows nothing of how identifiers
are quoted: a quote opens a delimited identifier, in there two quotes stand for one, and one alone
closes it; whatever is not in a delimited identifier is read character by character.  `tokens?` is
that reader, on any text, and it has nothing to say of a text that ends in the middle of an
identifier.

A quoted part is read as the part, whatever quotes it is made of, as long as no further quote
follows (`tokens?_quotePart_append`).  From that the parts of an identifier follow one after the
other, since a dot is no quote.

Main statement: **`tokens?_quote_exact`**.  An identifier is read as its parts with dots between
them, only parts that are `*` are left bare, and nothing of it gets into the text behind it.
-/

namespace GraphProjection

namespace Sql

/-! ## The reader -/

/-- A character outside all delimited identifiers, or one of those. -/
inductive Token where
  | bare (c : Char)
  | delimited (name : List Char)
deriving DecidableEq, Repr

/-- What a token stands for. -/
def Token.text : Token → List Char
  | .bare c => [c]
  | .delimited name => name

/-- Where a reader is: outside, in a delimited identifier that has been read so far, or behind a
quote in it that may close it or be the first of two. -/
inductive Reading where
  | outside
  | inside (name : List Char)
  | behindQuote (name : List Char)

/-- What a reader makes of the rest of a text; nothing where a delimited identifier is not
closed. -/
def tokensFrom? : Reading → List Char → Option (List Token)
  | .outside, [] => some []
  | .inside _, [] => none
  | .behindQuote name, [] => some [.delimited name]
  | .outside, c :: rest =>
    if c = '"' then tokensFrom? (.inside []) rest
    else (tokensFrom? .outside rest).map fun tokens => .bare c :: tokens
  | .inside name, c :: rest =>
    if c = '"' then tokensFrom? (.behindQuote name) rest
    else tokensFrom? (.inside (name ++ [c])) rest
  | .behindQuote name, c :: rest =>
    if c = '"' then tokensFrom? (.inside (name ++ ['"'])) rest
    else (tokensFrom? .outside rest).map fun tokens => .delimited name :: .bare c :: tokens

/-- What a reader makes of a text. -/
def tokens? (text : List Char) : Option (List Token) := tokensFrom? .outside text

/-! ## Texts between separators -/

section Intercalate

variable {α β : Type}

lemma flatMap_intercalate (f : α → List β) (separator : List α) (parts : List (List α)) :
    (List.intercalate separator parts).flatMap f =
      List.intercalate (separator.flatMap f) (parts.map fun part => part.flatMap f) := by
  induction parts with
  | nil => rfl
  | cons part rest ih =>
    cases rest with
    | nil => simp
    | cons next rest =>
      rw [List.intercalate_cons_cons, List.flatMap_append, List.flatMap_append, ih]
      simp [List.intercalate_cons_cons]

lemma mem_of_mem_intercalate {a : α} {separator : List α} {parts : List (List α)}
    (h : a ∈ List.intercalate separator parts) : a ∈ separator ∨ ∃ part ∈ parts, a ∈ part := by
  induction parts with
  | nil => cases h
  | cons part rest ih =>
    cases rest with
    | nil =>
      rw [List.intercalate_singleton] at h
      exact .inr ⟨part, List.mem_cons_self, h⟩
    | cons next rest =>
      rw [List.intercalate_cons_cons, List.mem_append, List.mem_append] at h
      rcases h with (h | h) | h
      · exact .inr ⟨part, List.mem_cons_self, h⟩
      · exact .inl h
      · rcases ih h with h | ⟨other, hother, h⟩
        · exact .inl h
        · exact .inr ⟨other, List.mem_cons_of_mem _ hother, h⟩

lemma mem_intercalate_of_mem {a : α} {part separator : List α} {parts : List (List α)}
    (hpart : part ∈ parts) (h : a ∈ part) : a ∈ List.intercalate separator parts := by
  induction parts with
  | nil => cases hpart
  | cons first rest ih =>
    cases rest with
    | nil =>
      rw [List.intercalate_singleton]
      exact List.mem_singleton.1 hpart ▸ h
    | cons next rest =>
      rw [List.intercalate_cons_cons, List.mem_append, List.mem_append]
      rcases List.mem_cons.1 hpart with rfl | hpart
      · exact .inl (.inl h)
      · exact .inr (ih hpart)

lemma mem_of_mem_splitOn [BEq α] [LawfulBEq α] {a c : α} {as part : List α}
    (hpart : part ∈ as.splitOn c) (h : a ∈ part) : a ∈ as := by
  have hjoined : List.intercalate [c] (as.splitOn c) = as := List.intercalate_splitOn c
  rw [← hjoined]
  exact mem_intercalate_of_mem hpart h

lemma notMem_of_mem_splitOn [BEq α] [LawfulBEq α] {a : α} {as part : List α}
    (h : part ∈ as.splitOn a) : a ∉ part := by
  induction as generalizing part with
  | nil =>
    rw [List.splitOn_nil, List.mem_singleton] at h
    rw [h]
    exact List.not_mem_nil
  | cons c rest ih =>
    rw [List.splitOn_cons_eq_if_modifyHead] at h
    split at h
    · rcases List.mem_cons.1 h with rfl | h
      · exact List.not_mem_nil
      · exact ih h
    · next hne =>
      cases hparts : rest.splitOn a with
      | nil => exact absurd hparts (List.splitOn_ne_nil a rest)
      | cons first others =>
        rw [hparts] at h ih
        rcases List.mem_cons.1 h with rfl | h
        · intro hmem
          rcases List.mem_cons.1 hmem with rfl | hmem
          · exact hne BEq.rfl
          · exact ih List.mem_cons_self hmem
        · exact ih (List.mem_cons_of_mem _ h)

end Intercalate

/-! ## Reading what was quoted -/

/-- What the reader is meant to make of a part of an identifier. -/
def partTokens (part : List Char) : List Token :=
  if part = ['*'] then [.bare '*'] else [.delimited part]

/-- What the reader is meant to make of an identifier: its parts, and the dots between them. -/
def identifierTokens (identifier : String) : List Token :=
  List.intercalate [.bare '.'] ((identifier.toList.splitOn '.').map partTokens)

@[simp] lemma tokens?_nil : tokens? [] = some [] := rfl

lemma tokens?_bare_cons {c : Char} (hc : c ≠ '"') (rest : List Char) :
    tokens? (c :: rest) = (tokens? rest).map fun tokens => .bare c :: tokens := by
  rw [tokens?, tokensFrom?, if_neg hc]
  rfl

/-- A quote closes an identifier unless another follows. -/
lemma tokensFrom?_behindQuote (name : List Char) {rest : List Char}
    (hrest : rest.head? ≠ some '"') :
    tokensFrom? (.behindQuote name) rest =
      (tokens? rest).map fun tokens => .delimited name :: tokens := by
  cases rest with
  | nil => rfl
  | cons c rest =>
    have hc : c ≠ '"' := fun h => hrest (by rw [h, List.head?_cons])
    rw [tokensFrom?, if_neg hc, tokens?_bare_cons hc, Option.map_map]
    rfl

/-- In a delimited identifier, doubled quotes are read as the quotes they stand for. -/
lemma tokensFrom?_inside_doubleQuotes (name part rest : List Char) :
    tokensFrom? (.inside name) (doubleQuotes part ++ rest) =
      tokensFrom? (.inside (name ++ part)) rest := by
  -- For every name read so far: a quote of the part takes two steps, the first to `behindQuote`.
  induction part generalizing name with
  | nil => rw [List.append_nil]; rfl
  | cons c part ih =>
    have hassoc : name ++ c :: part = name ++ [c] ++ part := by simp
    rw [hassoc, ← ih, doubleQuotes, List.flatMap_cons]
    split
    · next hc =>
      subst hc
      rfl
    · next hc =>
      rw [List.append_assoc, List.singleton_append, tokensFrom?, if_neg hc]
      rfl

/-- A part of an identifier is read as that part, with nothing of what follows. -/
theorem tokens?_quotePart_append (part : List Char) {rest : List Char}
    (hrest : rest.head? ≠ some '"') :
    tokens? (quotePart part ++ rest) =
      (tokens? rest).map fun tokens => partTokens part ++ tokens := by
  unfold quotePart partTokens
  split
  · next hstar =>
    rw [hstar]
    exact tokens?_bare_cons (by decide) rest
  · rw [List.cons_append, List.cons_append, List.append_assoc, List.singleton_append, tokens?,
      tokensFrom?, if_pos rfl, tokensFrom?_inside_doubleQuotes, List.nil_append, tokensFrom?,
      if_pos rfl]
    exact tokensFrom?_behindQuote part hrest

lemma tokens?_parts_append (parts : List (List Char)) {rest : List Char}
    (hrest : rest.head? ≠ some '"') :
    tokens? (List.intercalate ['.'] (parts.map quotePart) ++ rest) =
      (tokens? rest).map fun tokens =>
        List.intercalate [.bare '.'] (parts.map partTokens) ++ tokens := by
  induction parts with
  | nil => simp
  | cons part parts ih =>
    cases parts with
    | nil => simpa using tokens?_quotePart_append part hrest
    | cons next parts =>
      have hdot : (['.'] ++ (List.intercalate ['.'] ((next :: parts).map quotePart) ++ rest)).head?
          ≠ some '"' := by simp
      rw [List.map_cons, List.map_cons, List.intercalate_cons_cons, ← List.map_cons,
        List.append_assoc, List.append_assoc, tokens?_quotePart_append part hdot,
        List.singleton_append, tokens?_bare_cons (by decide), ih, Option.map_map, Option.map_map]
      congr 1
      funext tokens
      simp [List.intercalate_cons_cons]

/-- An identifier is read as its parts, with nothing of what follows. -/
lemma tokens?_quote_append (identifier : String) {rest : List Char}
    (hrest : rest.head? ≠ some '"') :
    tokens? (quote identifier ++ rest) =
      (tokens? rest).map fun tokens => identifierTokens identifier ++ tokens :=
  tokens?_parts_append _ hrest

lemma tokens?_quote (identifier : String) :
    tokens? (quote identifier) = some (identifierTokens identifier) := by
  have hend : ([] : List Char).head? ≠ some '"' := by simp
  have h := tokens?_quote_append identifier hend
  rwa [List.append_nil, tokens?_nil, Option.map_some, List.append_nil] at h

/-! ## What is read -/

lemma text_partTokens (part : List Char) : (partTokens part).flatMap Token.text = part := by
  unfold partTokens
  split
  · next hstar => rw [hstar]; rfl
  · exact List.flatMap_singleton _ _

/-- Nothing of an identifier is lost. -/
lemma text_identifierTokens (identifier : String) :
    (identifierTokens identifier).flatMap Token.text = identifier.toList := by
  have hparts : ((identifier.toList.splitOn '.').map partTokens).map
      (fun tokens => tokens.flatMap Token.text) = identifier.toList.splitOn '.' := by
    rw [List.map_map]
    exact List.map_id'' text_partTokens _
  rw [identifierTokens, flatMap_intercalate, hparts]
  exact List.intercalate_splitOn '.'

/-- Outside of delimited identifiers there are only the dots between parts and bare stars. -/
lemma bare_of_mem_identifierTokens {identifier : String} {c : Char}
    (h : .bare c ∈ identifierTokens identifier) : c = '.' ∨ c = '*' := by
  rcases mem_of_mem_intercalate h with h | ⟨tokens, htokens, h⟩
  · cases List.mem_singleton.1 h
    exact .inl rfl
  · obtain ⟨part, -, rfl⟩ := List.mem_map.1 htokens
    unfold partTokens at h
    split at h
    · cases List.mem_singleton.1 h
      exact .inr rfl
    · cases List.mem_singleton.1 h

/-- A delimited identifier is a whole part, and no star. -/
lemma delimited_of_mem_identifierTokens {identifier : String} {name : List Char}
    (h : .delimited name ∈ identifierTokens identifier) :
    name ∈ identifier.toList.splitOn '.' ∧ '.' ∉ name ∧ name ≠ ['*'] := by
  rcases mem_of_mem_intercalate h with h | ⟨tokens, htokens, h⟩
  · cases List.mem_singleton.1 h
  · obtain ⟨part, hpart, rfl⟩ := List.mem_map.1 htokens
    unfold partTokens at h
    split at h
    · cases List.mem_singleton.1 h
    · next hstar =>
      cases List.mem_singleton.1 h
      exact ⟨hpart, notMem_of_mem_splitOn hpart, hstar⟩

lemma quote_injective : Function.Injective quote := by
  intro a b h
  have htokens : identifierTokens a = identifierTokens b :=
    Option.some.inj (by rw [← tokens?_quote, ← tokens?_quote, h])
  rw [← String.toList_inj, ← text_identifierTokens a, ← text_identifierTokens b, htokens]

/-- An identifier is written with its own characters, with quotes and with dots. -/
lemma mem_quote {identifier : String} {c : Char} (h : c ∈ quote identifier) :
    c = '"' ∨ c = '.' ∨ c ∈ identifier.toList := by
  rcases mem_of_mem_intercalate h with hdot | ⟨text, htext, hc⟩
  · exact .inr (.inl (List.mem_singleton.1 hdot))
  · obtain ⟨part, hpart, rfl⟩ := List.mem_map.1 htext
    have hmem : c = '"' ∨ c ∈ part := by
      unfold quotePart doubleQuotes at hc
      split at hc
      · exact .inr hc
      · simp only [List.cons_append, List.mem_cons, List.mem_append, List.mem_flatMap,
          List.not_mem_nil, or_false] at hc
        rcases hc with rfl | ⟨d, hd, hc⟩ | rfl
        · exact .inl rfl
        · split at hc
          · exact .inl (by simpa using hc)
          · exact .inr (List.mem_singleton.1 hc ▸ hd)
        · exact .inl rfl
    exact hmem.imp_right fun hc => .inr (mem_of_mem_splitOn hpart hc)

/-- **Quoting cannot be escaped.**  Whatever an identifier is made of, and whatever text follows
that does not go on with a quote, a reader finds the parts of the identifier and then what it would
find in that text alone.  The parts are put together again by the dots between them, only dots and
stars are bare, and what is delimited is a whole part that is no star.  Different identifiers are
quoted differently. -/
theorem tokens?_quote_exact :
    (∀ (identifier : String) (rest : List Char), rest.head? ≠ some '"' →
      tokens? (quote identifier ++ rest) =
        (tokens? rest).map fun tokens => identifierTokens identifier ++ tokens) ∧
    (∀ identifier : String,
      tokens? (quote identifier) = some (identifierTokens identifier) ∧
      (identifierTokens identifier).flatMap Token.text = identifier.toList ∧
      (∀ c, .bare c ∈ identifierTokens identifier → c = '.' ∨ c = '*') ∧
      ∀ name, .delimited name ∈ identifierTokens identifier →
        name ∈ identifier.toList.splitOn '.' ∧ '.' ∉ name ∧ name ≠ ['*']) ∧
    Function.Injective quote := by
  refine ⟨fun identifier rest hrest => tokens?_quote_append identifier hrest,
    fun identifier => ⟨tokens?_quote identifier, text_identifierTokens identifier, ?_, ?_⟩,
    quote_injective⟩
  · exact fun c h => bare_of_mem_identifierTokens h
  · exact fun name h => delimited_of_mem_identifierTokens h

/-- A column that tries to close its quotes and to go on with text of its own. -/
theorem tokens?_quote_exact_hostile :
    tokens? (quote "posts.*.id\" or \"1" ++ " = ?".toList) =
      some ([.delimited "posts".toList, .bare '.', .bare '*', .bare '.',
        .delimited "id\" or \"1".toList, .bare ' ', .bare '=', .bare ' ', .bare '?']) := by
  obtain ⟨hfollowed, -⟩ := tokens?_quote_exact
  rw [hfollowed "posts.*.id\" or \"1" " = ?".toList (by decide)]
  decide

end Sql

end GraphProjection
