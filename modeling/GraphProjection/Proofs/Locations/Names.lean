import GraphProjection.Proofs.Expansion

/-!
# Names among the tokens

The readers of a document take tokens off the front and keep of names what their tokens say.  What
they leave is a part of the tokens at their end, and the fields that they read go by names that are
among the tokens (`Document.ReadsFields`).

Main statement: `Document.exists_scan_of_parse`, every field of a document is written with a key or
a name that is a token of the text.
-/

namespace GraphProjection

/-- The token that a name is read from. -/
def Name.token (name : Name) : Token := ⟨.name name.text, name.offset⟩

namespace Document

/-- The fields of what was read from tokens have their keys, or else their names, among the tokens,
and what is left is a part of the tokens at their end. -/
structure ReadsFields (fields : List (Option Name × Name)) (tokens rest : List Token) : Prop where
  suffix : rest <:+ tokens
  tokens : ∀ field ∈ fields, (field.1.getD field.2).token ∈ tokens

section Reads

variable {tokens rest : List Token} {fuel : Nat}

lemma ReadsFields.none (h : rest <:+ tokens) : ReadsFields [] tokens rest :=
  ⟨h, fun _ hfield => absurd hfield List.not_mem_nil⟩

lemma ReadsFields.append {fields more : List (Option Name × Name)} {between : List Token}
    (h : ReadsFields fields tokens between) (hmore : ReadsFields more between rest) :
    ReadsFields (fields ++ more) tokens rest :=
  ⟨hmore.suffix.trans h.suffix, List.forall_mem_append.2
    ⟨h.tokens, fun field hfield => h.suffix.subset (hmore.tokens field hfield)⟩⟩

lemma readName_eq_some {name : Name} (h : readName tokens = some (name, rest)) :
    tokens = name.token :: rest := by
  unfold readName at h
  split at h
  · cases h
    rfl
  · cases h

lemma suffix_of_readName {name : Name} (h : readName tokens = some (name, rest)) :
    rest <:+ tokens :=
  readName_eq_some h ▸ List.suffix_cons _ _

lemma suffix_of_expectMark {c : Char} (h : expectMark c tokens = some rest) :
    rest <:+ tokens := by
  unfold expectMark at h
  split at h
  · split at h
    · cases h
      exact List.suffix_cons _ _
    · cases h
  · cases h

/-! ## Values -/

mutual

lemma suffix_of_readLiteral : (fuel : Nat) → {tokens rest : List Token} → {l : Literal} →
    readLiteral fuel tokens = some (l, rest) → rest <:+ tokens
  | 0, _, _, _, h => by cases h
  | fuel + 1, tokens, rest, l, h => by
    unfold readLiteral at h
    split at h
    case h_1 =>
      cases h
      exact List.suffix_append [_, _] rest
    case h_9 =>
      obtain ⟨⟨items, _⟩, hitems, heq⟩ := Option.map_eq_some_iff.1 h
      cases heq
      exact (suffix_of_readItems fuel hitems).trans (List.suffix_cons _ _)
    case h_10 =>
      obtain ⟨⟨pairs, _⟩, hpairs, heq⟩ := Option.map_eq_some_iff.1 h
      cases heq
      exact (suffix_of_readPairs fuel hpairs).trans (List.suffix_cons _ _)
    case h_11 => cases h
    all_goals
      cases h
      exact List.suffix_cons _ _

lemma suffix_of_readItems : (fuel : Nat) → {tokens rest : List Token} → {items : List Literal} →
    readItems fuel tokens = some (items, rest) → rest <:+ tokens
  | 0, _, _, _, h => by cases h
  | fuel + 1, tokens, rest, items, h => by
    unfold readItems at h
    split at h
    · cases h
      exact List.suffix_cons _ _
    · simp only [Option.bind_eq_bind, Option.bind_eq_some_iff] at h
      obtain ⟨⟨item, behind⟩, hitem, ⟨more, _⟩, hmore, h⟩ := h
      cases h
      exact (suffix_of_readItems fuel hmore).trans (suffix_of_readLiteral fuel hitem)

lemma suffix_of_readPairs : (fuel : Nat) → {closing : Char} → {tokens rest : List Token} →
    {pairs : List (String × Literal)} → readPairs closing fuel tokens = some (pairs, rest) →
    rest <:+ tokens
  | 0, _, _, _, _, h => by cases h
  | fuel + 1, closing, tokens, rest, pairs, h => by
    unfold readPairs at h
    split at h
    · simp only [Option.bind_eq_bind, Option.bind_eq_some_iff] at h
      obtain ⟨⟨value, behind⟩, hvalue, ⟨more, _⟩, hmore, h⟩ := h
      cases h
      exact ((suffix_of_readPairs fuel hmore).trans (suffix_of_readLiteral fuel hvalue)).trans
        (List.suffix_append [_, _] _)
    · obtain ⟨_, hmark, heq⟩ := Option.map_eq_some_iff.1 h
      cases heq
      exact suffix_of_expectMark hmark

end

lemma suffix_of_readArguments {arguments : List (String × Literal)}
    (h : readArguments fuel tokens = some (arguments, rest)) : rest <:+ tokens := by
  unfold readArguments at h
  split at h
  · exact (suffix_of_readPairs fuel h).trans (List.suffix_cons _ _)
  · cases h
    exact List.suffix_rfl

lemma suffix_of_readDirectives {directives : List Directive}
    (h : readDirectives fuel tokens = some (directives, rest)) : rest <:+ tokens := by
  fun_induction readDirectives fuel tokens generalizing directives with
  | case1 fuel name offset _ behind ih =>
    simp only [Option.bind_eq_bind, Option.bind_eq_some_iff] at h
    obtain ⟨⟨arguments, between⟩, harguments, ⟨more, _⟩, hmore, h⟩ := h
    cases h
    exact ((ih _ hmore).trans (suffix_of_readArguments harguments)).trans
      (List.suffix_append [_, _] _)
  | case2 => cases h
  | case3 =>
    cases h
    exact List.suffix_rfl

/-! ## Selections -/

/-- A field goes by the first of the names that are read for it. -/
lemma readsFields_of_readFieldName {key : Option Name} {name : Name}
    (h : readFieldName tokens = some ((key, name), rest)) :
    ReadsFields [(key, name)] tokens rest := by
  simp only [readFieldName, Option.bind_eq_bind, Option.bind_eq_some_iff] at h
  obtain ⟨⟨first, behind⟩, hfirst, h⟩ := h
  have hmem : first.token ∈ tokens := readName_eq_some hfirst ▸ List.mem_cons_self
  simp only at h
  split at h
  · simp only [Option.bind_eq_some_iff] at h
    obtain ⟨⟨second, _⟩, hsecond, heq⟩ := h
    cases heq
    exact ⟨((suffix_of_readName hsecond).trans (List.suffix_cons _ _)).trans
      (suffix_of_readName hfirst), List.forall_mem_singleton.2 hmem⟩
  · cases h
    exact ⟨suffix_of_readName hfirst, List.forall_mem_singleton.2 hmem⟩

mutual

lemma readsFields_of_readSelection : (fuel : Nat) → {tokens rest : List Token} →
    {s : Selection} → readSelection fuel tokens = some (s, rest) →
    ReadsFields s.fieldNames tokens rest
  | 0, _, _, _, h => by cases h
  | fuel + 1, tokens, rest, s, h => by
    unfold readSelection at h
    -- Directives and arguments have no fields in them; they are only passed.
    split at h
    · simp only [Option.bind_eq_bind, Option.bind_eq_some_iff] at h
      obtain ⟨⟨condition, behind⟩, hcondition, ⟨directives, between⟩, hdirectives,
        ⟨selections, _⟩, hselections, h⟩ := h
      cases h
      exact (ReadsFields.none ((suffix_of_readDirectives hdirectives).trans
        ((suffix_of_readName hcondition).trans (List.suffix_append [_, _] _)))).append
          (readsFields_of_readSelectionSet fuel hselections)
    · simp only [Option.bind_eq_bind, Option.bind_eq_some_iff] at h
      obtain ⟨⟨directives, _⟩, hdirectives, h⟩ := h
      cases h
      exact .none ((suffix_of_readDirectives hdirectives).trans (List.suffix_append [_, _] _))
    · simp only [Option.bind_eq_bind, Option.bind_eq_some_iff] at h
      obtain ⟨⟨directives, between⟩, hdirectives, ⟨selections, _⟩, hselections, h⟩ := h
      cases h
      exact (ReadsFields.none ((suffix_of_readDirectives hdirectives).trans
        (List.suffix_cons _ _))).append (readsFields_of_readSelectionSet fuel hselections)
    · simp only [Option.bind_eq_bind, Option.bind_eq_some_iff] at h
      obtain ⟨⟨⟨key, name⟩, behindName⟩, hname, ⟨arguments, behindArguments⟩, harguments,
        ⟨directives, between⟩, hdirectives, h⟩ := h
      have hfield := (readsFields_of_readFieldName hname).append
        (.none ((suffix_of_readDirectives hdirectives).trans (suffix_of_readArguments harguments)))
      split at h
      · simp only [Option.bind_eq_some_iff] at h
        obtain ⟨⟨selections, _⟩, hselections, h⟩ := h
        cases h
        exact hfield.append (readsFields_of_readSelectionSet fuel hselections)
      · cases h
        exact hfield

lemma readsFields_of_readSelectionSet : (fuel : Nat) → {tokens rest : List Token} →
    {selections : List Selection} → readSelectionSet fuel tokens = some (selections, rest) →
    ReadsFields (Selection.fieldNamesIn selections) tokens rest
  | 0, _, _, _, h => by cases h
  | fuel + 1, tokens, rest, selections, h => by
    simp only [readSelectionSet, Option.bind_eq_bind, Option.bind_eq_some_iff] at h
    obtain ⟨_, hmark, ⟨first, between⟩, hfirst, ⟨more, _⟩, hmore, h⟩ := h
    cases h
    exact (ReadsFields.none (suffix_of_expectMark hmark)).append
      ((readsFields_of_readSelection fuel hfirst).append
        (readsFields_of_readSelections fuel hmore))

lemma readsFields_of_readSelections : (fuel : Nat) → {tokens rest : List Token} →
    {selections : List Selection} → readSelections fuel tokens = some (selections, rest) →
    ReadsFields (Selection.fieldNamesIn selections) tokens rest
  | 0, _, _, _, h => by cases h
  | fuel + 1, tokens, rest, selections, h => by
    unfold readSelections at h
    split at h
    · cases h
      exact .none (List.suffix_cons _ _)
    · simp only [Option.bind_eq_bind, Option.bind_eq_some_iff] at h
      obtain ⟨⟨first, between⟩, hfirst, ⟨more, _⟩, hmore, h⟩ := h
      cases h
      exact (readsFields_of_readSelection fuel hfirst).append
        (readsFields_of_readSelections fuel hmore)

end

/-! ## Definitions -/

lemma suffix_of_skipType (h : skipType tokens = some rest) : rest <:+ tokens := by
  obtain ⟨⟨name, behind⟩, hname, rfl⟩ := Option.map_eq_some_iff.1 h
  exact (List.dropWhile_suffix _).trans
    ((suffix_of_readName hname).trans (List.dropWhile_suffix _))

lemma suffix_of_readDefault {default : Option Constant}
    (h : readDefault fuel tokens = some (default, rest)) : rest <:+ tokens := by
  unfold readDefault at h
  split at h
  · simp only [Option.bind_eq_bind, Option.bind_eq_some_iff] at h
    obtain ⟨⟨literal, _⟩, hliteral, _, -, h⟩ := h
    cases h
    exact (suffix_of_readLiteral fuel hliteral).trans (List.suffix_cons _ _)
  · cases h
    exact List.suffix_rfl

lemma suffix_of_readVariable {definition : VariableDefinition}
    (h : readVariable fuel tokens = some (definition, rest)) : rest <:+ tokens := by
  unfold readVariable at h
  split at h
  · simp only [Option.bind_eq_bind, Option.bind_eq_some_iff] at h
    obtain ⟨behindType, htype, ⟨default, behindDefault⟩, hdefault, ⟨directives, _⟩, hdirectives,
      h⟩ := h
    cases h
    exact (suffix_of_readDirectives hdirectives).trans ((suffix_of_readDefault hdefault).trans
      ((suffix_of_skipType htype).trans (List.suffix_append [_, _, _] _)))
  · cases h

lemma suffix_of_readVariables {definitions : List VariableDefinition}
    (h : readVariables fuel tokens = some (definitions, rest)) : rest <:+ tokens := by
  induction fuel generalizing tokens definitions with
  | zero => cases h
  | succ fuel ih =>
    unfold readVariables at h
    split at h
    · cases h
      exact List.suffix_cons _ _
    · simp only [Option.bind_eq_bind, Option.bind_eq_some_iff] at h
      obtain ⟨⟨definition, behind⟩, hdefinition, ⟨more, _⟩, hmore, h⟩ := h
      cases h
      exact (ih hmore).trans (suffix_of_readVariable hdefinition)

lemma suffix_of_readVariableList {definitions : List VariableDefinition}
    (h : readVariableList fuel tokens = some (definitions, rest)) : rest <:+ tokens := by
  unfold readVariableList at h
  split at h
  · exact (suffix_of_readVariables (Option.filter_eq_some_iff.1 h).1).trans (List.suffix_cons _ _)
  · cases h
    exact List.suffix_rfl

lemma suffix_readOperationName (tokens : List Token) :
    (readOperationName tokens).2 <:+ tokens := by
  unfold readOperationName
  split
  · exact List.suffix_cons _ _
  · exact List.suffix_rfl

lemma readsFields_of_readOperation {operation : Operation}
    (h : readOperation fuel tokens = some (operation, rest)) :
    ReadsFields (Selection.fieldNamesIn operation.selections) tokens rest := by
  simp only [readOperation, Option.bind_eq_bind, Option.bind_eq_some_iff] at h
  obtain ⟨⟨definitions, behindVariables⟩, hvariables, ⟨directives, between⟩, hdirectives,
    ⟨selections, _⟩, hselections, h⟩ := h
  cases h
  have hfront : between <:+ tokens := (suffix_of_readDirectives hdirectives).trans
    ((suffix_of_readVariableList hvariables).trans (suffix_readOperationName tokens))
  exact (ReadsFields.none hfront).append (readsFields_of_readSelectionSet fuel hselections)

lemma readsFields_of_readFragment {fragment : Fragment}
    (h : readFragment fuel tokens = some (fragment, rest)) :
    ReadsFields (Selection.fieldNamesIn fragment.selections) tokens rest := by
  unfold readFragment at h
  split at h
  · simp only [Option.bind_eq_bind, Option.bind_eq_some_iff] at h
    obtain ⟨⟨condition, behind⟩, hcondition, ⟨directives, between⟩, hdirectives,
      ⟨selections, _⟩, hselections, h⟩ := h
    split at h
    · cases h
    · cases h
      exact (ReadsFields.none ((suffix_of_readDirectives hdirectives).trans
        ((suffix_of_readName hcondition).trans (List.suffix_append [_, _] _)))).append
          (readsFields_of_readSelectionSet fuel hselections)
  · cases h

lemma mem_fieldNames_addOperation {d : Document} {operation : Operation}
    {field : Option Name × Name} :
    field ∈ fieldNames { d with operations := d.operations ++ [operation] } ↔
      field ∈ d.fieldNames ∨ field ∈ Selection.fieldNamesIn operation.selections := by
  simp only [fieldNames, List.flatMap_append, List.flatMap_singleton, List.mem_append]
  tauto

lemma mem_fieldNames_addFragment {d : Document} {fragment : Fragment}
    {field : Option Name × Name} :
    field ∈ fieldNames { d with fragments := d.fragments ++ [fragment] } ↔
      field ∈ d.fieldNames ∨ field ∈ Selection.fieldNamesIn fragment.selections := by
  simp only [fieldNames, List.flatMap_append, List.flatMap_singleton, List.mem_append]
  tauto

/-- The definitions that are read add fields that have their keys, or else their names, among the
tokens. -/
theorem readsFields_of_readDefinitions {d done : Document}
    (h : readDefinitions fuel d tokens = some done) :
    done.source = d.source ∧ ∀ field ∈ done.fieldNames,
      field ∈ d.fieldNames ∨ (field.1.getD field.2).token ∈ tokens := by
  -- What is left of the tokens is a suffix of them, so what is found there is among them.
  fun_induction readDefinitions fuel d tokens with
  | case1 =>
    cases h
    exact ⟨rfl, fun _ hfield => .inl hfield⟩
  | case3 fuel d offset rest ih =>
    simp only [Option.bind_eq_bind, Option.bind_eq_some_iff] at h
    obtain ⟨⟨selections, behind⟩, hselections, h⟩ := h
    obtain ⟨hsource, hfields⟩ := ih selections behind h
    have hreads := readsFields_of_readSelectionSet _ hselections
    refine ⟨hsource, fun field hfield => ?_⟩
    rcases hfields field hfield with hfield | htoken
    · exact (mem_fieldNames_addOperation.1 hfield).imp_right (hreads.tokens field)
    · exact .inr (hreads.suffix.subset htoken)
  | case4 fuel d keyword offset rest _ ih =>
    simp only [Option.bind_eq_bind, Option.bind_eq_some_iff] at h
    obtain ⟨⟨operation, behind⟩, hoperation, h⟩ := h
    obtain ⟨hsource, hfields⟩ := ih operation behind h
    have hreads := readsFields_of_readOperation hoperation
    refine ⟨hsource, fun field hfield => ?_⟩
    rcases hfields field hfield with hfield | htoken
    · exact (mem_fieldNames_addOperation.1 hfield).imp_right
        fun hfield => List.mem_cons_of_mem _ (hreads.tokens field hfield)
    · exact .inr (List.mem_cons_of_mem _ (hreads.suffix.subset htoken))
  | case5 fuel d offset rest _ ih =>
    simp only [Option.bind_eq_bind, Option.bind_eq_some_iff] at h
    obtain ⟨⟨fragment, behind⟩, hfragment, h⟩ := h
    obtain ⟨hsource, hfields⟩ := ih fragment behind h
    have hreads := readsFields_of_readFragment hfragment
    refine ⟨hsource, fun field hfield => ?_⟩
    rcases hfields field hfield with hfield | htoken
    · exact (mem_fieldNames_addFragment.1 hfield).imp_right
        fun hfield => List.mem_cons_of_mem _ (hreads.tokens field hfield)
    · exact .inr (List.mem_cons_of_mem _ (hreads.suffix.subset htoken))
  | case2 => cases h
  | case6 => cases h
  | case7 => cases h

end Reads

/-- The fields of a document that is read from a text go by names that are tokens of the text. -/
theorem exists_scan_of_parse {text : String} {d : Document} (h : parse text = .ok d) :
    d.source = text.toList ∧ ∃ tokens, Token.scan text.toList = some tokens ∧
      ∀ field ∈ d.fieldNames, (field.1.getD field.2).token ∈ tokens := by
  simp only [parse] at h
  split at h
  · cases h
  · split at h
    · next hread =>
      cases h
      obtain ⟨tokens, hscan, hread⟩ := Option.bind_eq_some_iff.1 hread
      obtain ⟨hsource, hfields⟩ := readsFields_of_readDefinitions hread
      refine ⟨hsource, tokens, hscan, fun field hfield => (hfields field hfield).resolve_left ?_⟩
      exact List.not_mem_nil
    · cases h

end Document
end GraphProjection
