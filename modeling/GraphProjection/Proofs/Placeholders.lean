import GraphProjection.Proofs.Quoting
import Mathlib.Data.List.Count

/-!
# Marks and values of statements

A statement has a mark `?` for every value that it is sent with, and the marks take the values in
order.  `Sql.wherePieces` is what a clause of conditions means: its text with every value in the
place where it counts.  `Sql.Spells` says of a text and some values that they spell such pieces: the
text is read as the pieces with a mark for each value, it has no other mark, and the values are
those of the pieces in their order.  That is kept when texts are put one behind the other
(`Spells.append`, `Spells.intercalate`), so it goes from conditions to clauses (`spells_condition`,
`spells_whereClause`) whatever is in the names of the columns, a `?` included.

A query is made by calls, and only two kinds of them add a condition.  All others neither look at
the conditions nor touch them (`callAll_withConditions`), so the calls can be sorted into those that
add conditions and the rest, each in their order (`callAll_eq`).

Main statement: **`placeholders_of_calls`**.
-/

namespace GraphProjection

/-! ## What clauses mean -/

namespace Sql

/-- A piece of a clause that has its values in place. -/
inductive Piece where
  | token (t : Token)
  | value (v : Value)

namespace Piece

/-- A piece as it stands in a statement, with a mark for a value. -/
def marked : Piece → Token
  | .token t => t
  | .value _ => .bare '?'

/-- The value, if a piece is one. -/
def value? : Piece → Option Value
  | .token _ => none
  | .value v => some v

end Piece

/-- The pieces of a plain text. -/
def plainPieces (text : List Char) : List Piece := text.map fun c => .token (.bare c)

/-- The pieces of an identifier. -/
def identifierPieces (identifier : String) : List Piece :=
  (identifierTokens identifier).map .token

/-- A condition with its values in place. -/
def conditionPieces : Condition → List Piece
  | .equals column value => identifierPieces column ++ plainPieces " = ".toList ++ [.value value]
  | .within column [] => identifierPieces column ++ plainPieces " in (null)".toList
  | .within column values =>
    identifierPieces column ++ plainPieces " in (".toList ++
      List.intercalate (plainPieces [',', ' ']) (values.map fun v => [.value v]) ++
        plainPieces [')']

/-- The clause of all conditions with their values in place. -/
def wherePieces (conditions : List Condition) : List Piece :=
  if conditions.isEmpty then []
  else plainPieces " where ".toList ++
    List.intercalate (plainPieces " and ".toList) (conditions.map conditionPieces)

/-! ## Texts that spell pieces -/

/-- A text and some values spell pieces: read together with whatever follows, the text is the pieces
with their marks, no piece is a mark by itself, and the values are those of the pieces. -/
structure Spells (text : List Char) (values : List Value) (pieces : List Piece) : Prop where
  tokens : ∀ rest, tokens? (text ++ rest) =
    (tokens? rest).map fun tokens => pieces.map Piece.marked ++ tokens
  values : pieces.filterMap Piece.value? = values
  unmarked : .token (.bare '?') ∉ pieces

namespace Spells

variable {text text' : List Char} {values values' : List Value} {pieces pieces' : List Piece}

lemma nil : Spells [] [] [] where
  tokens rest := by simp
  values := rfl
  unmarked := List.not_mem_nil

theorem append (h : Spells text values pieces) (h' : Spells text' values' pieces') :
    Spells (text ++ text') (values ++ values') (pieces ++ pieces') where
  tokens rest := by
    rw [List.append_assoc, h.tokens, h'.tokens, Option.map_map]
    congr 1
    funext tokens
    simp
  values := by rw [List.filterMap_append, h.values, h'.values]
  unmarked := fun hmem => (List.mem_append.1 hmem).elim h.unmarked h'.unmarked

/-- A value is spelled by a mark. -/
lemma mark (v : Value) : Spells ['?'] [v] [.value v] where
  tokens rest := tokens?_bare_cons (by decide) rest
  values := rfl
  unmarked := by simp

/-- A text without quotes and marks spells itself. -/
lemma plain (h : (text.all fun c => c != '"' && c != '?') = true) :
    Spells text [] (plainPieces text) := by
  induction text with
  | nil => exact nil
  | cons c rest ih =>
    rw [List.all_cons, Bool.and_eq_true, Bool.and_eq_true, bne_iff_ne, bne_iff_ne] at h
    have hc : Spells [c] [] [.token (.bare c)] :=
      { tokens := tokens?_bare_cons h.1.1
        values := rfl
        unmarked := by simpa using h.1.2.symm }
    exact hc.append (ih h.2)

/-- An identifier spells itself in front of a text that does not go on with a quote. -/
lemma quote_append (identifier : String) {c : Char} (hc : c ≠ '"') (hfirst : text.head? = some c)
    (h : Spells text values pieces) :
    Spells (quote identifier ++ text) values (identifierPieces identifier ++ pieces) where
  tokens rest := by
    have hrest : (text ++ rest).head? ≠ some '"' := by
      rw [List.head?_append, hfirst, Option.some_or]
      exact fun heq => hc (Option.some.inj heq)
    rw [List.append_assoc, tokens?_quote_append identifier hrest, h.tokens, Option.map_map]
    congr 1
    funext tokens
    simp [identifierPieces, Function.comp_def, Piece.marked]
  values := by
    rw [List.filterMap_append, h.values, identifierPieces, List.filterMap_map]
    simp [Function.comp_def, Piece.value?]
  unmarked := by
    intro hmem
    rcases List.mem_append.1 hmem with hmem | hmem
    · obtain ⟨token, htoken, heq⟩ := List.mem_map.1 hmem
      cases heq
      have hbare := bare_of_mem_identifierTokens htoken
      revert hbare
      decide
    · exact h.unmarked hmem

/-- Texts with a separator between them spell their pieces with its pieces between them. -/
theorem intercalate {ι : Type} {items : List ι} {textOf : ι → List Char}
    {valuesOf : ι → List Value} {piecesOf : ι → List Piece} {separator : List Char}
    {between : List Piece} (hseparator : Spells separator [] between)
    (h : ∀ item ∈ items, Spells (textOf item) (valuesOf item) (piecesOf item)) :
    Spells (List.intercalate separator (items.map textOf)) (items.flatMap valuesOf)
      (List.intercalate between (items.map piecesOf)) := by
  induction items with
  | nil => exact nil
  | cons item rest ih =>
    rw [List.forall_mem_cons] at h
    cases rest with
    | nil => simpa using h.1
    | cons next rest =>
      have hrest := (h.1.append hseparator).append (ih h.2)
      rw [List.append_nil] at hrest
      simpa [List.intercalate_cons_cons] using hrest

/-- A text has one mark for each of the values. -/
lemma count_marks (h : Spells text values pieces) :
    (pieces.map Piece.marked).count (.bare '?') = values.length := by
  obtain ⟨-, rfl, hunmarked⟩ := h
  induction pieces with
  | nil => rfl
  | cons piece rest ih =>
    rw [List.mem_cons, not_or] at hunmarked
    cases piece with
    | value v =>
      rw [List.map_cons, Piece.marked, List.count_cons_self, ih hunmarked.2]
      rfl
    | token t =>
      have ht : t ≠ .bare '?' := fun heq => hunmarked.1 (heq ▸ rfl)
      rw [List.map_cons, Piece.marked, List.count_cons_of_ne ht, ih hunmarked.2]
      rfl

end Spells

lemma spells_marks (values : List Value) :
    Spells (commaSeparated (values.map fun _ => ['?'])) values
      (List.intercalate (plainPieces [',', ' ']) (values.map fun v => [.value v])) := by
  have hcomma : Spells [',', ' '] [] (plainPieces [',', ' ']) := .plain rfl
  have h := hcomma.intercalate fun v (_ : v ∈ values) => .mark v
  rwa [List.flatMap_singleton'] at h

theorem spells_condition (c : Condition) :
    Spells (condition c) (conditionBindings c) (conditionPieces c) := by
  cases c with
  | equals column value =>
    have hequals : Spells " = ".toList [] (plainPieces " = ".toList) := .plain rfl
    have hvalue := (hequals.append (.mark value)).quote_append column (c := ' ') (by decide) rfl
    have htext : " = ?".toList = " = ".toList ++ ['?'] := by decide
    rw [condition, conditionPieces, htext, List.append_assoc]
    exact hvalue
  | within column values =>
    cases values with
    | nil =>
      have hnull : Spells " in (null)".toList [] (plainPieces " in (null)".toList) :=
        .plain rfl
      exact hnull.quote_append column (c := ' ') (by decide) (by decide)
    | cons v values =>
      have hopen : Spells " in (".toList [] (plainPieces " in (".toList) := .plain rfl
      have hclose : Spells [')'] [] (plainPieces [')']) := .plain rfl
      have hlist := hopen.append ((spells_marks (v :: values)).append hclose)
      rw [List.append_nil, List.nil_append] at hlist
      have hcondition := hlist.quote_append column (c := ' ') (by decide) rfl
      simp only [← List.append_assoc] at hcondition
      exact hcondition

/-- The clause of conditions spells them with their values in place. -/
theorem spells_whereClause (conditions : List Condition) :
    Spells (whereClause conditions) (bindings conditions) (wherePieces conditions) := by
  unfold whereClause wherePieces
  cases conditions with
  | nil => exact .nil
  | cons c rest =>
    have hwhere : Spells " where ".toList [] (plainPieces " where ".toList) := .plain rfl
    have hand : Spells " and ".toList [] (plainPieces " and ".toList) := .plain rfl
    exact hwhere.append (hand.intercalate fun c _ => spells_condition c)

/-! ## Marks in the text -/

/-- If a character is in each text once for every value, and not between the texts, it is there once
for every value of them all. -/
theorem count_intercalate {ι : Type} {c : Char} {items : List ι} {textOf : ι → List Char}
    {valuesOf : ι → List Value} {separator : List Char} (hseparator : c ∉ separator)
    (h : ∀ item ∈ items, (textOf item).count c = (valuesOf item).length) :
    (List.intercalate separator (items.map textOf)).count c =
      (items.flatMap valuesOf).length := by
  induction items with
  | nil => rfl
  | cons item rest ih =>
    rw [List.forall_mem_cons] at h
    cases rest with
    | nil => simpa using h.1
    | cons next rest =>
      rw [List.map_cons, List.map_cons, List.intercalate_cons_cons, ← List.map_cons,
        List.count_append, List.count_append, ih h.2, h.1,
        List.count_eq_zero_of_not_mem hseparator, Nat.add_zero, ← List.length_append,
        ← List.flatMap_cons]

lemma mark_notMem_quote {identifier : String} (h : '?' ∉ identifier.toList) :
    '?' ∉ quote identifier := by
  intro hmem
  rcases mem_quote hmem with hquote | hdot | hmem
  · cases hquote
  · cases hdot
  · exact h hmem

/-- The column that a condition is about. -/
def conditionColumn : Condition → String
  | .equals column _ => column
  | .within column _ => column

lemma count_marks_condition {c : Condition} (h : '?' ∉ (conditionColumn c).toList) :
    (condition c).count '?' = (conditionBindings c).length := by
  have hquote : ∀ column : String, '?' ∉ column.toList → (quote column).count '?' = 0 :=
    fun column hcolumn => List.count_eq_zero_of_not_mem (mark_notMem_quote hcolumn)
  cases c with
  | equals column value =>
    rw [condition, List.count_append, hquote column h]
    rfl
  | within column values =>
    cases values with
    | nil =>
      rw [condition, List.count_append, hquote column h]
      rfl
    | cons v values =>
      have hmarks : (commaSeparated ((v :: values).map fun _ => ['?'])).count '?' =
          (v :: values).length := by
        have hcomma : '?' ∉ [',', ' '] := by decide
        have hvalues : ∀ w ∈ v :: values, ['?'].count '?' = [w].length := fun _ _ => rfl
        rw [commaSeparated, count_intercalate hcomma hvalues, List.flatMap_singleton']
      show (quote column ++ " in (".toList ++ commaSeparated ((v :: values).map fun _ => ['?']) ++
        [')']).count '?' = (v :: values).length
      have hopen : " in (".toList.count '?' = 0 := rfl
      have hclose : [')'].count '?' = 0 := rfl
      rw [List.count_append, List.count_append, List.count_append, hquote column h, hmarks, hopen,
        hclose, Nat.zero_add, Nat.add_zero]

lemma count_marks_whereClause {conditions : List Condition}
    (h : ∀ c ∈ conditions, '?' ∉ (conditionColumn c).toList) :
    (whereClause conditions).count '?' = (bindings conditions).length := by
  unfold whereClause bindings
  cases conditions with
  | nil => rfl
  | cons c rest =>
    have hand : '?' ∉ " and ".toList := by decide
    have hconditions := count_intercalate hand fun other hother =>
      count_marks_condition (h other hother)
    show (" where ".toList ++ List.intercalate " and ".toList ((c :: rest).map condition)).count '?'
      = ((c :: rest).flatMap conditionBindings).length
    rw [List.count_append, hconditions]
    exact Nat.zero_add _

lemma mark_notMem_numberClause {keyword : String} (h : '?' ∉ keyword.toList) (n : Option Nat) :
    '?' ∉ numberClause keyword n := by
  cases n with
  | none => exact List.not_mem_nil
  | some n =>
    have hdigits : '?' ∉ Nat.toDigits 10 n := by
      intro hmem
      have hdigit := Nat.isDigit_of_mem_toDigits (by decide) (by decide) hmem
      revert hdigit
      decide
    simp [numberClause, h, hdigits]

end Sql

namespace SelectQuery

/-! ## Calls -/

/-- Whoever holds a query itself can narrow it, ask for one of several values of a column, and set
its window. -/
inductive Call where
  | narrow (e : Edit)
  | whereIn (column : String) (values : List Value)
  | limit (n : Nat)
  | offset (n : Nat)

/-- Carries out a call. -/
def call (q : SelectQuery) : Call → SelectQuery
  | .narrow e => q.edit e
  | .whereIn column values => q.whereIn column values
  | .limit n => q.withLimit n
  | .offset n => q.withOffset n

/-- Carries out calls one after the other. -/
def callAll (q : SelectQuery) (calls : List Call) : SelectQuery := calls.foldl call q

/-- The condition that a call adds, if it adds one. -/
def Call.condition? : Call → Option Condition
  | .narrow (.whereEq column value) => some (.equals column value)
  | .whereIn column values => some (.within column values)
  | _ => none

/-- The conditions that calls add, in the order of the calls. -/
def conditionsOf (calls : List Call) : List Condition := calls.filterMap Call.condition?

/-- The calls that add no condition, in their order. -/
def otherCalls (calls : List Call) : List Call := calls.filter (·.condition?.isNone)

/-- A query with other conditions. -/
def withConditions (q : SelectQuery) (conditions : List Condition) : SelectQuery :=
  { q with conditions := conditions }

@[simp] lemma withConditions_self (q : SelectQuery) : q.withConditions q.conditions = q := by
  cases q
  rfl

lemma call_of_condition? {c : Call} {condition : Condition} (h : c.condition? = some condition)
    (q : SelectQuery) : q.call c = q.addCondition condition := by
  cases c with
  | narrow e =>
    cases e with
    | whereEq column value =>
      cases h
      rw [call, edit, whereEq]
    | _ => cases h
  | whereIn column values =>
    cases h
    rfl
  | limit n => cases h
  | offset n => cases h

/-- A call that adds no condition does the same whatever the conditions are. -/
lemma call_withConditions {c : Call} (h : c.condition? = none) (q : SelectQuery)
    (conditions : List Condition) :
    (q.withConditions conditions).call c = (q.call c).withConditions conditions := by
  cases c with
  | narrow e =>
    cases e with
    | whereEq column value => cases h
    | _ => rw [call, call, edit, edit]; rfl
  | whereIn column values => cases h
  | limit n => rfl
  | offset n => rfl

theorem callAll_withConditions {calls : List Call} (h : ∀ c ∈ calls, c.condition? = none)
    (q : SelectQuery) (conditions : List Condition) :
    (q.withConditions conditions).callAll calls =
      (q.callAll calls).withConditions conditions := by
  induction calls generalizing q with
  | nil => rfl
  | cons c rest ih =>
    rw [List.forall_mem_cons] at h
    rw [callAll, List.foldl_cons, call_withConditions h.1]
    exact ih h.2 (q.call c)

/-- Calls come to the calls that add no condition and, apart from them, the conditions. -/
theorem callAll_eq (q : SelectQuery) (calls : List Call) :
    q.callAll calls =
      (q.callAll (otherCalls calls)).withConditions (q.conditions ++ conditionsOf calls) := by
  -- For every query: what the first call added is moved behind all others of the rest.
  induction calls generalizing q with
  | nil =>
    rw [conditionsOf, List.filterMap_nil, List.append_nil]
    exact (withConditions_self q).symm
  | cons c rest ih =>
    have hother : ∀ c ∈ otherCalls rest, c.condition? = none := fun c hc =>
      Option.isNone_iff_eq_none.1 (List.mem_filter.1 hc).2
    rw [callAll, List.foldl_cons, ← callAll, ih]
    cases hc : c.condition? with
    | none =>
      have hconditions : (q.call c).conditions = q.conditions := by
        have hcall := call_withConditions hc q q.conditions
        rw [withConditions_self] at hcall
        rw [hcall]
        rfl
      have hothers : otherCalls (c :: rest) = c :: otherCalls rest := by
        rw [otherCalls, List.filter_cons_of_pos (by simp [hc]), ← otherCalls]
      have hnone : conditionsOf (c :: rest) = conditionsOf rest := List.filterMap_cons_none hc
      rw [hconditions, hothers, hnone]
      rfl
    | some condition =>
      have hothers : otherCalls (c :: rest) = otherCalls rest := by
        rw [otherCalls, List.filter_cons_of_neg (by simp [hc]), ← otherCalls]
      have hadd : q.call c = q.withConditions (q.conditions ++ [condition]) :=
        call_of_condition? hc q
      have hcons : conditionsOf (c :: rest) = condition :: conditionsOf rest :=
        List.filterMap_cons_some hc
      rw [hadd, callAll_withConditions hother, hothers, hcons,
        List.append_cons q.conditions condition (conditionsOf rest)]
      rfl

/-- The query that calls make of the query of a table. -/
def ofCalls (table : String) (calls : List Call) : SelectQuery := (all table).callAll calls

lemma conditions_ofCalls (table : String) (calls : List Call) :
    (ofCalls table calls).conditions = conditionsOf calls := by
  rw [ofCalls, callAll_eq]
  rfl

lemma table_call (q : SelectQuery) (c : Call) : (q.call c).table = q.table := by
  cases c with
  | narrow e => cases e <;> rw [call, edit] <;> rfl
  | _ => rfl

lemma table_ofCalls (table : String) (calls : List Call) :
    (ofCalls table calls).table = table := by
  have hcalls : ∀ q : SelectQuery, (q.callAll calls).table = q.table := by
    induction calls with
    | nil => exact fun q => rfl
    | cons c rest ih => exact fun q => (ih (q.call c)).trans (table_call q c)
  exact hcalls (all table)

/-! ## Both statements of a query -/

/-- Nothing that is written into the statements of a query holds the character of a mark. -/
structure Unmarked (q : SelectQuery) : Prop where
  table : '?' ∉ q.table.toList
  columns : ∀ column ∈ q.columns, '?' ∉ column.toList
  expressions : ∀ e ∈ q.expressions, '?' ∉ e.1.toList ∧ '?' ∉ e.2.toList
  conditions : ∀ c ∈ q.conditions, '?' ∉ (Sql.conditionColumn c).toList

lemma Unmarked.notMem_selection {q : SelectQuery} (h : q.Unmarked) :
    '?' ∉ Sql.selection q := by
  intro hmem
  rcases Sql.mem_of_mem_intercalate hmem with hcomma | ⟨text, htext, hmem⟩
  · revert hcomma
    decide
  · rcases List.mem_append.1 htext with hcolumn | hexpression
    · split at hcolumn
      · rw [List.mem_singleton.1 hcolumn] at hmem
        revert hmem
        decide
      · obtain ⟨column, hselected, rfl⟩ := List.mem_map.1 hcolumn
        exact Sql.mark_notMem_quote (h.columns column hselected) hmem
    · obtain ⟨e, he, rfl⟩ := List.mem_map.1 hexpression
      have has : '?' ∉ " AS ".toList := by decide
      rw [Sql.expression, List.mem_append, List.mem_append] at hmem
      exact hmem.elim (·.elim (h.expressions e he).1 has) (h.expressions e he).2

/-- The text of both statements: what stands before the clause of the conditions and behind it. -/
lemma sql_statement (q : SelectQuery) :
    q.statement.sql.toList =
      "select ".toList ++ Sql.selection q ++ " from ".toList ++ Sql.quote q.table ++
        Sql.whereClause q.conditions ++ Sql.numberClause "limit" q.limit ++
        Sql.numberClause "offset" q.offset := String.toList_ofList

lemma sql_countStatement (q : SelectQuery) :
    q.countStatement.sql.toList =
      "select count(*) as aggregate from ".toList ++ Sql.quote q.table ++
        Sql.whereClause q.conditions := String.toList_ofList

lemma Unmarked.count_statement {q : SelectQuery} (h : q.Unmarked) :
    q.statement.sql.toList.count '?' = (Sql.bindings q.conditions).length := by
  have hselect : '?' ∉ "select ".toList := by decide
  have hfrom : '?' ∉ " from ".toList := by decide
  have hlimit : '?' ∉ Sql.numberClause "limit" q.limit :=
    Sql.mark_notMem_numberClause (by decide) q.limit
  have hoffset : '?' ∉ Sql.numberClause "offset" q.offset :=
    Sql.mark_notMem_numberClause (by decide) q.offset
  rw [sql_statement, List.count_append, List.count_append, List.count_append, List.count_append,
    List.count_append, List.count_append, List.count_eq_zero_of_not_mem hselect,
    List.count_eq_zero_of_not_mem h.notMem_selection, List.count_eq_zero_of_not_mem hfrom,
    List.count_eq_zero_of_not_mem (Sql.mark_notMem_quote h.table),
    Sql.count_marks_whereClause h.conditions, List.count_eq_zero_of_not_mem hlimit,
    List.count_eq_zero_of_not_mem hoffset]
  omega

lemma Unmarked.count_countStatement {q : SelectQuery} (h : q.Unmarked) :
    q.countStatement.sql.toList.count '?' = (Sql.bindings q.conditions).length := by
  have hselect : '?' ∉ "select count(*) as aggregate from ".toList := by decide
  rw [sql_countStatement, List.count_append, List.count_append,
    List.count_eq_zero_of_not_mem hselect,
    List.count_eq_zero_of_not_mem (Sql.mark_notMem_quote h.table),
    Sql.count_marks_whereClause h.conditions]
  omega

lemma countStatement_congr {q q' : SelectQuery} (htable : q.table = q'.table)
    (hconditions : q.conditions = q'.conditions) : q.countStatement = q'.countStatement := by
  unfold countStatement
  rw [htable, hconditions]

/-- **Marks and values match, and both statements ask for the same rows.**  Whatever calls make a
query: read as SQL, the clause of the conditions they add is what these mean, with a mark in the
place of each value and no other, and the values are sent in that order.  Both statements have that
clause and those values.  As long as nothing else brings a `?` into the text, there are as many of
them as values.  Calls that add the same conditions in the same order have the same clause, values
and count, whatever else they do; and if they do the same else, they make the same query. -/
theorem placeholders_of_calls (table : String) (calls : List Call) :
    (Sql.Spells (Sql.whereClause (conditionsOf calls)) (Sql.bindings (conditionsOf calls))
        (Sql.wherePieces (conditionsOf calls)) ∧
      ((Sql.wherePieces (conditionsOf calls)).map Sql.Piece.marked).count (.bare '?') =
        (Sql.bindings (conditionsOf calls)).length) ∧
    ((ofCalls table calls).statement.bindings = Sql.bindings (conditionsOf calls) ∧
      (ofCalls table calls).countStatement.bindings = Sql.bindings (conditionsOf calls) ∧
      (ofCalls table calls).statement.sql.toList =
        "select ".toList ++ Sql.selection (ofCalls table calls) ++ " from ".toList ++
          Sql.quote table ++ Sql.whereClause (conditionsOf calls) ++
          Sql.numberClause "limit" (ofCalls table calls).limit ++
          Sql.numberClause "offset" (ofCalls table calls).offset ∧
      (ofCalls table calls).countStatement.sql.toList =
        "select count(*) as aggregate from ".toList ++ Sql.quote table ++
          Sql.whereClause (conditionsOf calls)) ∧
    ((ofCalls table calls).Unmarked →
      (ofCalls table calls).statement.sql.toList.count '?' =
        (ofCalls table calls).statement.bindings.length ∧
      (ofCalls table calls).countStatement.sql.toList.count '?' =
        (ofCalls table calls).countStatement.bindings.length) ∧
    ∀ others, conditionsOf others = conditionsOf calls →
      (ofCalls table others).countStatement = (ofCalls table calls).countStatement ∧
      (ofCalls table others).statement.bindings = (ofCalls table calls).statement.bindings ∧
      (otherCalls others = otherCalls calls → ofCalls table others = ofCalls table calls) := by
  have htable := table_ofCalls table calls
  have hconditions := conditions_ofCalls table calls
  have hspells := Sql.spells_whereClause (conditionsOf calls)
  have hbindings : (ofCalls table calls).statement.bindings =
      Sql.bindings (conditionsOf calls) := congrArg Sql.bindings hconditions
  have hcounted : (ofCalls table calls).countStatement.bindings =
      Sql.bindings (conditionsOf calls) := congrArg Sql.bindings hconditions
  refine ⟨⟨hspells, hspells.count_marks⟩, ⟨hbindings, hcounted, ?_, ?_⟩, fun h => ⟨?_, ?_⟩,
    fun others hothers => ⟨?_, ?_, fun h => ?_⟩⟩
  · rw [sql_statement, htable, hconditions]
  · rw [sql_countStatement, htable, hconditions]
  · exact h.count_statement
  · exact h.count_countStatement
  · refine countStatement_congr ?_ ?_
    · rw [htable, table_ofCalls]
    · rw [hconditions, conditions_ofCalls, hothers]
  · rw [hbindings, ← hothers]
    exact congrArg Sql.bindings (conditions_ofCalls table others)
  · rw [ofCalls, ofCalls, callAll_eq _ others, callAll_eq _ calls, h, hothers]

/-! ## Posts, in a window -/

/-- Published posts by one of two authors and under one of no tags, in a window, with an expression
and their comments. -/
def postCalls : List Call :=
  [.narrow (.select ["posts.id", "posts.title"]), .whereIn "posts.author_id" [.int 1, .int 2],
    .limit 15, .narrow (.selectRaw "(SELECT 1)" "one"), .whereIn "posts.tag" [],
    .narrow (.load ⟨"comments", "comments", none, "id", "post_id", true⟩ []),
    .narrow (.whereEq "posts.draft" (.bool false)), .offset 30]

/-- The conditions of those posts, and nothing else. -/
def postConditions : List Call :=
  [.whereIn "posts.author_id" [.int 1, .int 2], .whereIn "posts.tag" [],
    .narrow (.whereEq "posts.draft" (.bool false))]

/-- Their statement has three marks, one for each value, and they are counted like those conditions
alone. -/
theorem placeholders_of_postCalls :
    (ofCalls "posts" postCalls).statement.sql.toList.count '?' = 3 ∧
      (ofCalls "posts" postConditions).countStatement =
        (ofCalls "posts" postCalls).countStatement := by
  obtain ⟨-, ⟨hbindings, -⟩, hcounts, hothers⟩ := placeholders_of_calls "posts" postCalls
  have hunmarked : (ofCalls "posts" postCalls).Unmarked :=
    ⟨by decide, by decide, by decide, by decide⟩
  have hcount := (hcounts hunmarked).1
  rw [hbindings] at hcount
  exact ⟨hcount, (hothers postConditions rfl).1⟩

end SelectQuery

end GraphProjection
