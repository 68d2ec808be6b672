import GraphProjection.Proofs.Substitution.Literals
import GraphProjection.Proofs.WritingOut

/-!
# Variables as constants in the document

A document with variables is expanded like the document in which constants stand for the variables.
`Document.substitute` puts them there, in every operation and in every fragment, and the operations
declare nothing anymore; names keep their places, so what is pointed at stays the same.

The fragments of a document are shared by its operations, and another operation may declare other
variables.  What is asked of variables and directives is therefore asked where the operation comes
to only: `Document.InScope` are the selections of the operation, those below them, and the bodies
of the fragments that are spread among them.

The check of the fragments sees no arguments, so it says the same of both documents
(`Document.checkFragments_substitute`).  Where it accepts, the two expansions are compared step by
step from the bottom (`Expansion.spreadTo_substitute`).

Main statement: **`Document.expand_substitute`**.
-/

namespace GraphProjection

/-! ## The substitution in selections -/

namespace Selection

/-- The arguments of a field. -/
def arguments : Selection → List (String × Literal)
  | .field _ _ arguments _ _ => arguments
  | .inlineFragment _ _ _ => []
  | .spread _ _ => []

/-- The directives of a selection. -/
def directives : Selection → List Directive
  | .field _ _ _ directives _ => directives
  | .inlineFragment _ directives _ => directives
  | .spread _ directives => directives

/-- The selections below a selection. -/
def selections : Selection → List Selection
  | .field _ _ _ _ selections => selections
  | .inlineFragment _ _ selections => selections
  | .spread _ _ => []

/-- The literals of a selection: those of its arguments and those of its directives. -/
def literals (s : Selection) : List Literal :=
  (s.arguments ++ s.directives.flatMap (·.arguments)).map (·.2)

mutual

/-- Constants in the place of variables in a selection. -/
def substitute (σ : Substitution) : Selection → Selection
  | .field key name arguments directives selections =>
    .field key name (substituteArguments σ arguments) (directives.map (·.substitute σ))
      (substituteAll σ selections)
  | .inlineFragment condition directives selections =>
    .inlineFragment condition (directives.map (·.substitute σ)) (substituteAll σ selections)
  | .spread fragment directives => .spread fragment (directives.map (·.substitute σ))

/-- Constants in the place of variables in selections. -/
def substituteAll (σ : Substitution) : List Selection → List Selection
  | [] => []
  | s :: rest => s.substitute σ :: substituteAll σ rest

end

variable {σ : Substitution}

lemma substituteAll_eq_map (σ : Substitution) (selections : List Selection) :
    substituteAll σ selections = selections.map (·.substitute σ) := by
  induction selections with
  | nil => rfl
  | cons s rest ih => rw [substituteAll, ih, List.map_cons]

lemma directives_substitute (s : Selection) :
    (s.substitute σ).directives = s.directives.map (·.substitute σ) := by
  cases s <;> rw [substitute] <;> rfl

lemma arguments_substitute (s : Selection) :
    (s.substitute σ).arguments = substituteArguments σ s.arguments := by
  cases s <;> rw [substitute] <;> rfl

lemma selections_substitute (s : Selection) :
    (s.substitute σ).selections = s.selections.map (·.substitute σ) := by
  cases s <;> rw [substitute]
  · exact substituteAll_eq_map σ _
  · exact substituteAll_eq_map σ _
  · rfl

mutual

lemma spreads_substitute : (s : Selection) → (s.substitute σ).spreads = s.spreads
  | .field _ _ _ _ selections => by
    rw [substitute, spreads, spreads, spreadsIn_substituteAll selections]
  | .inlineFragment _ _ selections => by
    rw [substitute, spreads, spreads, spreadsIn_substituteAll selections]
  | .spread _ _ => by rw [substitute, spreads, spreads]

lemma spreadsIn_substituteAll : (selections : List Selection) →
    spreadsIn (substituteAll σ selections) = spreadsIn selections
  | [] => rfl
  | s :: rest => by
    rw [substituteAll, spreadsIn, spreadsIn, spreads_substitute s, spreadsIn_substituteAll rest]

end

lemma mem_spreadsIn {selections : List Selection} {s : Selection} (hs : s ∈ selections)
    {spread : Name} (hspread : spread ∈ s.spreads) : spread ∈ spreadsIn selections := by
  induction selections with
  | nil => exact absurd hs List.not_mem_nil
  | cons first rest ih =>
    rw [spreadsIn, List.mem_append]
    rcases List.mem_cons.1 hs with rfl | hrest
    · exact .inl hspread
    · exact .inr (ih hrest)

lemma mem_literals_of_arguments {s : Selection} {argument : String × Literal}
    (h : argument ∈ s.arguments) : argument.2 ∈ s.literals :=
  List.mem_map_of_mem (List.mem_append_left _ h)

lemma mem_literals_of_directives {s : Selection} {directive : Directive}
    (hdirective : directive ∈ s.directives) {argument : String × Literal}
    (h : argument ∈ directive.arguments) : argument.2 ∈ s.literals :=
  List.mem_map_of_mem (List.mem_append_right _ (List.mem_flatMap.2 ⟨directive, hdirective, h⟩))

/-- The literals of a selection whose variables are declared become constants. -/
lemma exists_literal_of_mem_literals {s : Selection}
    (h : ∀ l ∈ s.literals, ∀ name ∈ l.variableNames, (σ.replacement? name).isSome = true) :
    ∀ l ∈ (s.substitute σ).literals, ∃ c : Constant, l = c.literal := by
  have hconstant : ∀ {arguments : List (String × Literal)},
      (∀ argument ∈ arguments, argument.2 ∈ s.literals) →
      ∀ argument ∈ substituteArguments σ arguments, ∃ c : Constant, argument.2 = c.literal := by
    intro arguments harguments argument hargument
    obtain ⟨before, hbefore, rfl⟩ := mem_substituteArguments hargument
    exact Literal.exists_literal_substitute before.2 (h before.2 (harguments before hbefore))
  intro l hl
  rw [literals, List.mem_map] at hl
  obtain ⟨argument, hargument, rfl⟩ := hl
  rw [arguments_substitute, directives_substitute, List.mem_append, List.mem_flatMap] at hargument
  rcases hargument with hfield | ⟨directive, hdirective, hargument⟩
  · exact hconstant (fun _ hbefore => mem_literals_of_arguments hbefore) argument hfield
  · obtain ⟨before, hbefore, rfl⟩ := List.mem_map.1 hdirective
    exact hconstant (fun _ hargument => mem_literals_of_directives hbefore hargument) argument
      hargument

section Constants

variable {s : Selection} (h : ∀ l ∈ s.literals, ∃ c : Constant, l = c.literal)
include h

lemma exists_included (d : Document) (v : Variables) :
    ∃ included, Directive.included d v s.directives = .ok included :=
  Directive.exists_included d v fun _ hdirective argument hargument =>
    h argument.2 (mem_literals_of_directives hdirective hargument)

lemma exists_evaluateArguments (d : Document) (v : Variables) :
    ∃ known, evaluateArguments d v s.arguments [] = .ok known :=
  GraphProjection.exists_evaluateArguments d v
    (fun argument hargument => h argument.2 (mem_literals_of_arguments hargument)) []

end Constants

end Selection

/-- What stands for the variables of an operation when a request gives some constants. -/
def Operation.substitution (operation : Operation) (given : Entries Constant) : Substitution :=
  ⟨operation.variableDefinitions, given⟩

/-- Constants in the place of variables in an operation, which declares none then. -/
def Operation.substitute (σ : Substitution) (operation : Operation) : Operation where
  name := operation.name
  variableDefinitions := []
  selections := Selection.substituteAll σ operation.selections

/-- Constants in the place of variables in a fragment. -/
def Fragment.substitute (σ : Substitution) (f : Fragment) : Fragment :=
  { f with selections := Selection.substituteAll σ f.selections }

/-- Constants in the place of variables in a document. -/
def Document.substitute (σ : Substitution) (d : Document) : Document where
  source := d.source
  operations := d.operations.map (·.substitute σ)
  fragments := d.fragments.map (·.substitute σ)

/-! ## What an operation comes to -/

namespace Document

variable {d : Document} {operation : Operation} {σ : Substitution}

/-- A selection is in the scope of an operation: it is one of the operation's, or below one in its
scope, or in the body of a fragment that is spread in its scope. -/
inductive InScope (d : Document) (operation : Operation) : Selection → Prop
  | top {s : Selection} (mem : s ∈ operation.selections) : InScope d operation s
  | under {s t : Selection} (above : InScope d operation s) (mem : t ∈ s.selections) :
      InScope d operation t
  | spread {fragment : Name} {directives : List Directive} {f : Fragment} {t : Selection}
      (above : InScope d operation (.spread fragment directives))
      (found : d.fragment? fragment.text = some f) (mem : t ∈ f.selections) :
      InScope d operation t

/-- An operation declares the variables that are used in its scope. -/
def Declares (d : Document) (operation : Operation) : Prop :=
  ∀ s, d.InScope operation s → ∀ l ∈ s.literals, ∀ name ∈ l.variableNames,
    ∃ definition ∈ operation.variableDefinitions, definition.name = name

/-- The directives in the scope of an operation are decided by the first of their conditions. -/
def FirstDecides (d : Document) (operation : Operation) (σ : Substitution) : Prop :=
  ∀ s, d.InScope operation s → ∀ directive ∈ s.directives, directive.FirstDecides σ

lemma fragment?_substitute (d : Document) (σ : Substitution) (name : String) :
    (d.substitute σ).fragment? name = (d.fragment? name).map (·.substitute σ) := by
  rw [fragment?, fragment?, substitute, List.find?_map]
  rfl

lemma selectOperation_substitute (σ : Substitution) {name : Option String}
    (h : d.selectOperation name = .ok operation) :
    (d.substitute σ).selectOperation name = .ok (operation.substitute σ) := by
  cases name with
  | some name =>
    rw [selectOperation] at h
    split at h
    · next found =>
      cases h
      have hfound : (d.operations.map (·.substitute σ)).find? (·.name == some name) =
          some (operation.substitute σ) := by
        rw [List.find?_map]
        exact congrArg (Option.map _) found
      rw [selectOperation, substitute, hfound]
    · cases h
  | none =>
    rw [selectOperation] at h
    split at h
    · next honly =>
      cases h
      rw [selectOperation, substitute, honly]
      rfl
    · cases h
    · cases h

/-- What is in scope after the substitution comes from what was in scope before. -/
lemma InScope.exists_substitute {t : Selection}
    (h : (d.substitute σ).InScope (operation.substitute σ) t) :
    ∃ s, d.InScope operation s ∧ t = s.substitute σ := by
  induction h with
  | top mem =>
    rw [Operation.substitute, Selection.substituteAll_eq_map, List.mem_map] at mem
    obtain ⟨s, hs, rfl⟩ := mem
    exact ⟨s, .top hs, rfl⟩
  | under _ mem ih =>
    obtain ⟨s, hs, rfl⟩ := ih
    rw [Selection.selections_substitute, List.mem_map] at mem
    obtain ⟨t, ht, rfl⟩ := mem
    exact ⟨t, hs.under ht, rfl⟩
  | @spread fragment directives f t _ found mem ih =>
    obtain ⟨s, hs, heq⟩ := ih
    rw [fragment?_substitute, Option.map_eq_some_iff] at found
    obtain ⟨g, hg, rfl⟩ := found
    rw [Fragment.substitute, Selection.substituteAll_eq_map, List.mem_map] at mem
    obtain ⟨t, ht, rfl⟩ := mem
    cases s with
    | field _ _ _ _ _ => cases heq
    | inlineFragment _ _ _ => cases heq
    | spread fragment' _ =>
      cases heq
      exact ⟨t, hs.spread hg ht, rfl⟩

/-- In a sound document the spreads in scope name fragments. -/
lemma Sound.isSome_of_inScope (h : d.Sound operation) {s : Selection}
    (hs : d.InScope operation s) :
    ∀ spread ∈ s.spreads, (d.fragment? spread.text).isSome = true := by
  induction hs with
  | top mem => exact fun spread hspread => h.known spread (Selection.mem_spreadsIn mem hspread)
  | @under s t _ mem ih =>
    intro spread hspread
    refine ih spread ?_
    have hbelow := Selection.mem_spreadsIn mem hspread
    cases s with
    | field _ _ _ _ _ => rwa [Selection.spreads]
    | inlineFragment _ _ _ => rwa [Selection.spreads]
    | spread _ _ => exact absurd mem List.not_mem_nil
  | spread _ found mem _ =>
    intro spread hspread
    exact h.knownWithin _ _ found spread (Selection.mem_spreadsIn mem hspread)

/-! ## The check of the fragments -/

lemma walkAll_substituteAll (follow : Name → Walked → Except OperationError Walked)
    (selections : List Selection) (walked : Walked) :
    walkAll follow (Selection.substituteAll σ selections) walked =
      walkAll follow selections walked := by
  rw [walkAll_eq, walkAll_eq, Selection.spreadsIn_substituteAll]

lemma followTo_substitute (d : Document) (σ : Substitution) (bottom : Following) (n : Nat) :
    (d.substitute σ).followTo bottom n = d.followTo bottom n := by
  induction n with
  | zero => rfl
  | succ n ih =>
    funext way spread walked
    have hplace : (d.substitute σ).locate spread.offset = d.locate spread.offset :=
      locate_congr rfl spread.offset
    rw [followTo, followTo, followOnce, followOnce, ih, hplace, fragment?_substitute]
    cases d.fragment? spread.text with
    | none => rfl
    | some f => simp only [Option.map_some, Fragment.substitute, walkAll_substituteAll]

/-- A walk follows the same spreads in both documents. -/
lemma followSpread_substitute {way : List String} {pending pending' : List Fragment}
    (h : d.Pending way pending) (h' : (d.substitute σ).Pending way pending') :
    followSpread (d.substitute σ) pending' way = followSpread d pending way := by
  let n := max pending.length pending'.length + 1
  have hn : pending.length < n := Nat.lt_succ_of_le (Nat.le_max_left _ _)
  have hn' : pending'.length < n := Nat.lt_succ_of_le (Nat.le_max_right _ _)
  rw [followSpread_eq_followTo h (fun _ _ _ => .ok []) hn,
    followSpread_eq_followTo h' (fun _ _ _ => .ok []) hn', followTo_substitute]

lemma walkFragments_substitute (d : Document) (σ : Substitution) (fragments : List Fragment)
    (walked : Walked) :
    walkFragments (d.substitute σ) (fragments.map (·.substitute σ)) walked =
      walkFragments d fragments walked := by
  induction fragments generalizing walked with
  | nil => rfl
  | cons f rest ih =>
    have hfollow : followSpread (d.substitute σ)
          (Fragment.without f.name (d.substitute σ).fragments) [f.name] =
        followSpread d (Fragment.without f.name d.fragments) [f.name] :=
      followSpread_substitute ((Pending.start d).without f.name)
        ((Pending.start (d.substitute σ)).without f.name)
    rw [List.map_cons, walkFragments, walkFragments]
    simp only [Fragment.substitute] at ih ⊢
    rw [hfollow, walkAll_substituteAll]
    simp only [ih]

/-- The check of the fragments says the same of both documents. -/
theorem checkFragments_substitute (d : Document) (σ : Substitution) (operation : Operation) :
    (d.substitute σ).checkFragments (operation.substitute σ) = d.checkFragments operation := by
  have hfollow : followSpread (d.substitute σ) (d.substitute σ).fragments [] =
      followSpread d d.fragments [] :=
    followSpread_substitute (Pending.start d) (Pending.start (d.substitute σ))
  rw [checkFragments, checkFragments, hfollow, Operation.substitute, walkAll_substituteAll]
  simp only [substitute, ← walkFragments_substitute d σ]

end Document

/-! ## The expansion -/

namespace Expansion

open Document

variable {d : Document} {operation : Operation} {σ : Substitution} {types : TypeInfo}
  {spread spread' : Spreading}

mutual

lemma expandSelection_substitute (hfirst : d.FirstDecides operation σ)
    (hspread : ∀ fragment directives, d.InScope operation (.spread fragment directives) →
      ∀ parent, spread' fragment parent = spread fragment parent)
    (parent : Option String) : (s : Selection) → d.InScope operation s →
    expandSelection ⟨d, types, .empty⟩ spread' parent (s.substitute σ) =
      expandSelection ⟨d, types, σ.values⟩ spread parent s
  | .field key name arguments directives selections, hs => by
    have hincluded : Directive.included d .empty (directives.map (·.substitute σ)) =
        Directive.included d σ.values directives := Directive.included_substitute d (hfirst _ hs)
    have hbelow := expandAll_substitute hfirst hspread
      (childType ⟨d, types, .empty⟩ parent name.text) selections fun t ht => hs.under ht
    rw [Selection.substitute, expandSelection, expandSelection, hincluded,
      evaluateArguments_substitute, hbelow]
    rfl
  | .inlineFragment condition directives selections, hs => by
    have hincluded : Directive.included d .empty (directives.map (·.substitute σ)) =
        Directive.included d σ.values directives := Directive.included_substitute d (hfirst _ hs)
    have hbelow := expandAll_substitute hfirst hspread (parent.or condition) selections
      fun t ht => hs.under ht
    rw [Selection.substitute, expandSelection, expandSelection, hincluded, hbelow]
  | .spread fragment directives, hs => by
    have hincluded : Directive.included d .empty (directives.map (·.substitute σ)) =
        Directive.included d σ.values directives := Directive.included_substitute d (hfirst _ hs)
    rw [Selection.substitute, expandSelection, expandSelection, hincluded,
      hspread fragment directives hs]

/-- Selections in scope are expanded in the same way with constants in the place of variables, as
long as their spreads stand for the same. -/
theorem expandAll_substitute (hfirst : d.FirstDecides operation σ)
    (hspread : ∀ fragment directives, d.InScope operation (.spread fragment directives) →
      ∀ parent, spread' fragment parent = spread fragment parent)
    (parent : Option String) : (selections : List Selection) →
    (∀ s ∈ selections, d.InScope operation s) →
    expandAll ⟨d, types, .empty⟩ spread' parent (Selection.substituteAll σ selections) =
      expandAll ⟨d, types, σ.values⟩ spread parent selections
  | [], _ => by rw [Selection.substituteAll, expandAll, expandAll]
  | s :: rest, h => by
    obtain ⟨hs, hrest⟩ := List.forall_mem_cons.1 h
    rw [Selection.substituteAll, expandAll, expandAll,
      expandSelection_substitute hfirst hspread parent s hs,
      expandAll_substitute hfirst hspread parent rest hrest]

end

/-- After every number of steps, the spreads in scope stand for the same in both documents. -/
theorem spreadTo_substitute (hfirst : d.FirstDecides operation σ) (bottom : Spreading) (n : Nat)
    {fragment : Name} {directives : List Directive}
    (hs : d.InScope operation (.spread fragment directives)) (parent : Option String) :
    spreadTo ⟨d.substitute σ, types, .empty⟩ bottom n fragment parent =
      spreadTo ⟨d, types, σ.values⟩ bottom n fragment parent := by
  induction n generalizing fragment directives parent with
  | zero => rfl
  | succ n ih =>
    have hplace : (d.substitute σ).locate fragment.offset = d.locate fragment.offset :=
      locate_congr rfl fragment.offset
    rw [spreadTo, spreadTo, spreadOnce, spreadOnce]
    simp only [fragment?_substitute]
    cases found : d.fragment? fragment.text with
    | none => simp only [Option.map_none, hplace]
    | some f =>
      -- The body is in scope, so its spreads are, and the steps below agree on them.
      have hbody : expandAll ⟨d.substitute σ, types, .empty⟩
            (spreadTo ⟨d.substitute σ, types, .empty⟩ bottom n) (parent.or (some f.condition))
            (Selection.substituteAll σ f.selections) =
          expandAll ⟨d, types, σ.values⟩ (spreadTo ⟨d, types, σ.values⟩ bottom n)
            (parent.or (some f.condition)) f.selections := by
        refine (@expandAll_withDocument ⟨d, types, .empty⟩ (d.substitute σ) rfl _ _ _).trans ?_
        exact expandAll_substitute hfirst (fun _ _ hs parent => ih hs parent) _ f.selections
          fun t ht => hs.spread found ht
      simp only [Option.map_some, Fragment.substitute, hbody]

variable {x : Expansion}

mutual

lemma exists_expandSelection
    (hconstant : ∀ s, d.InScope operation s → ∀ l ∈ s.literals, ∃ c : Constant, l = c.literal)
    (hspread : ∀ fragment directives, d.InScope operation (.spread fragment directives) →
      ∀ parent, ∃ nodes, spread fragment parent = .ok nodes)
    (parent : Option String) : (s : Selection) → d.InScope operation s →
    ∃ nodes, x.expandSelection spread parent s = .ok nodes
  | .field key name arguments directives selections, hs => by
    have hincluded : ∃ included, Directive.included x.document x.variableValues directives =
        .ok included := Selection.exists_included (hconstant _ hs) x.document x.variableValues
    obtain ⟨included, hincluded⟩ := hincluded
    have hknown : ∃ known, evaluateArguments x.document x.variableValues arguments [] =
        .ok known :=
      Selection.exists_evaluateArguments (hconstant _ hs) x.document x.variableValues
    obtain ⟨known, hknown⟩ := hknown
    obtain ⟨children, hchildren⟩ := exists_expandAll hconstant hspread
      (x.childType parent name.text) selections fun t ht => hs.under ht
    rw [expandSelection, hincluded, hknown, hchildren]
    cases included
    · exact ⟨[], rfl⟩
    · exact ⟨_, rfl⟩
  | .inlineFragment condition directives selections, hs => by
    have hincluded : ∃ included, Directive.included x.document x.variableValues directives =
        .ok included := Selection.exists_included (hconstant _ hs) x.document x.variableValues
    obtain ⟨included, hincluded⟩ := hincluded
    obtain ⟨nodes, hnodes⟩ := exists_expandAll hconstant hspread (parent.or condition) selections
      fun t ht => hs.under ht
    rw [expandSelection, hincluded, hnodes]
    cases included
    · exact ⟨[], rfl⟩
    · by_cases hmatches : typeMatches parent condition = true
      · exact ⟨nodes, if_pos hmatches⟩
      · exact ⟨[], if_neg hmatches⟩
  | .spread fragment directives, hs => by
    have hincluded : ∃ included, Directive.included x.document x.variableValues directives =
        .ok included := Selection.exists_included (hconstant _ hs) x.document x.variableValues
    obtain ⟨included, hincluded⟩ := hincluded
    rw [expandSelection, hincluded]
    cases included
    · exact ⟨[], rfl⟩
    · exact hspread fragment directives hs parent

/-- Selections in scope can be expanded when there are nothing but constants in them. -/
lemma exists_expandAll
    (hconstant : ∀ s, d.InScope operation s → ∀ l ∈ s.literals, ∃ c : Constant, l = c.literal)
    (hspread : ∀ fragment directives, d.InScope operation (.spread fragment directives) →
      ∀ parent, ∃ nodes, spread fragment parent = .ok nodes)
    (parent : Option String) : (selections : List Selection) →
    (∀ s ∈ selections, d.InScope operation s) →
    ∃ nodes, x.expandAll spread parent selections = .ok nodes
  | [], _ => ⟨[], by rw [expandAll]⟩
  | s :: rest, h => by
    obtain ⟨hs, hrest⟩ := List.forall_mem_cons.1 h
    obtain ⟨nodes, hnodes⟩ := exists_expandSelection hconstant hspread parent s hs
    obtain ⟨more, hmore⟩ := exists_expandAll hconstant hspread parent rest hrest
    exact ⟨nodes ++ more, by rw [expandAll, hnodes, hmore]⟩

end

end Expansion

/-! ## The document without variables -/

namespace Document

variable {d : Document} {operation : Operation} {σ : Substitution}

/-- A sound operation is expanded in the same way in the document without variables. -/
lemma Sound.expandOperation_substitute (h : d.Sound operation)
    (h' : (d.substitute σ).Sound (operation.substitute σ))
    (hdeclared : σ.declared = operation.variableDefinitions) (hfirst : d.FirstDecides operation σ)
    (types : TypeInfo) (rootType : String) :
    (d.substitute σ).expandOperation types rootType (operation.substitute σ) [] =
      d.expandOperation types rootType operation σ.values.given := by
  have hlength : (d.substitute σ).fragments.length = d.fragments.length := List.length_map _
  have hvalues : d.expansion types operation σ.values.given = ⟨d, types, σ.values⟩ := by
    rw [expansion, ← hdeclared]
    rfl
  rw [h.expandOperation_eq types rootType σ.values.given fun _ _ => .ok [],
    h'.expandOperation_eq types rootType [] fun _ _ => .ok [], hlength, hvalues]
  refine (@Expansion.expandAll_withDocument ⟨d, types, .empty⟩ (d.substitute σ) rfl _ _ _).trans ?_
  exact Expansion.expandAll_substitute hfirst
    (fun _ _ hs parent => Expansion.spreadTo_substitute hfirst _ _ hs parent) _ _
    fun s hs => .top hs

/-- A sound operation can be expanded when there are nothing but constants in its scope. -/
lemma Sound.exists_expandOperation (h : d.Sound operation)
    (hconstant : ∀ s, d.InScope operation s → ∀ l ∈ s.literals, ∃ c : Constant, l = c.literal)
    (types : TypeInfo) (rootType : String) (given : Arguments) :
    ∃ nodes, d.expandOperation types rootType operation given = .ok nodes := by
  rw [h.expandOperation_eq types rootType given fun _ _ => .ok []]
  refine Expansion.exists_expandAll hconstant ?_ _ _ fun s hs => .top hs
  -- No number of steps fails: a spread in scope names a fragment, whose body is in scope.
  generalize d.fragments.length + 1 = n
  induction n with
  | zero => exact fun _ _ _ _ => ⟨[], rfl⟩
  | succ n ih =>
    intro fragment directives hs parent
    have hknown := h.isSome_of_inScope hs fragment (List.mem_singleton_self _)
    obtain ⟨f, found⟩ := Option.isSome_iff_exists.1 hknown
    rw [Expansion.spreadTo, Expansion.spreadOnce]
    simp only [expansion] at found ⊢
    rw [found]
    by_cases hmatches : typeMatches parent (some f.condition) = true
    · simp only [if_pos hmatches]
      exact Expansion.exists_expandAll hconstant ih _ f.selections fun t ht => hs.spread found ht
    · exact ⟨[], if_neg hmatches⟩

/-- Where an operation declares what is used, nothing but constants is in its scope afterwards. -/
lemma Declares.exists_literal (h : d.Declares operation)
    (hdeclared : σ.declared = operation.variableDefinitions) {s : Selection}
    (hs : (d.substitute σ).InScope (operation.substitute σ) s) :
    ∀ l ∈ s.literals, ∃ c : Constant, l = c.literal := by
  obtain ⟨before, hbefore, rfl⟩ := hs.exists_substitute
  refine Selection.exists_literal_of_mem_literals fun l hl name hname => ?_
  obtain ⟨definition, hdefinition, rfl⟩ := h before hbefore l hl name hname
  rw [Substitution.replacement?, Option.isSome_map, List.find?_isSome, hdeclared]
  exact ⟨definition, hdefinition, beq_self_eq_true _⟩

/-- **Variables mean the constants that stand for them.**

Let an operation declare the variables that are used in its scope, let a request give constants for
them, and let no directive in its scope have, behind a first condition that is a variable without a
value, a condition that is not such a variable.  Then the document with the constants in the place
of the variables, expanded without variables, gives the same fields or the same error, for all types
and root types; its operation declares no variables, and has nothing but constants in its scope; and
where the fragments are accepted there is no error.  A constant has the same value as an argument,
whatever the document and the variables, as it has where it is given or a default. -/
theorem expand_substitute {name : Option String} (hselect : d.selectOperation name = .ok operation)
    (hdeclares : d.Declares operation) (given : Entries Constant)
    (hfirst : d.FirstDecides operation (operation.substitution given)) :
    (∀ types rootType,
      (d.substitute (operation.substitution given)).expand types rootType name [] =
        d.expand types rootType name (Constant.fieldValues given)) ∧
    (d.substitute (operation.substitution given)).selectOperation name =
      .ok (operation.substitute (operation.substitution given)) ∧
    (∀ s, (d.substitute (operation.substitution given)).InScope
        (operation.substitute (operation.substitution given)) s →
      ∀ l ∈ s.literals, ∃ c : Constant, l = c.literal) ∧
    (d.checkFragments operation = .ok () → ∀ types rootType, ∃ nodes,
      d.expand types rootType name (Constant.fieldValues given) = .ok nodes) ∧
    ∀ (c : Constant) d' v, c.literal.evaluate d' v = .ok (some c.value) := by
  let σ := operation.substitution given
  have hselect' := selectOperation_substitute σ hselect
  have hcheck := checkFragments_substitute d σ operation
  have hconstant := fun s hs => hdeclares.exists_literal (σ := σ) rfl (s := s) hs
  have hsame : ∀ types rootType, (d.substitute σ).expand types rootType name [] =
      d.expand types rootType name (Constant.fieldValues given) := by
    intro types rootType
    simp only [expand, hselect, hselect', hcheck]
    -- Substituting changes no spread, so both documents are refused with the same error or none is.
    cases hok : d.checkFragments operation with
    | error e => rfl
    | ok =>
      have hsound := (checkFragments_eq_ok_iff d operation).1 hok
      have hsound' := (checkFragments_eq_ok_iff _ _).1 (hcheck.trans hok)
      exact hsound.expandOperation_substitute hsound' rfl hfirst types rootType
  refine ⟨hsame, hselect', hconstant, fun hok types rootType => ?_,
    fun c d' v => Literal.evaluate_literal d' v c⟩
  have hsound' := (checkFragments_eq_ok_iff _ _).1 (hcheck.trans hok)
  rw [← hsame, expand_of_sound hselect' hsound']
  exact hsound'.exists_expandOperation hconstant types rootType []

/-- An operation with a default, an argument and an item without a value, and a fragment whose
directive has no value at all. -/
def feedOperation : Operation where
  name := none
  variableDefinitions := [⟨"id", none⟩, ⟨"limit", some (.int 5)⟩, ⟨"after", none⟩,
    ⟨"full", some (.bool false)⟩]
  selections := [
    .field none ⟨"id", 0⟩ [("equals", .variable "id" 0), ("limit", .variable "limit" 0),
      ("after", .variable "after" 0), ("tags", .list [.string "a", .variable "after" 0])] [] [],
    .spread ⟨"Details", 0⟩ [⟨"include", [("if", .variable "full" 0)]⟩]]

/-- The fragment of the operation. -/
def feedDetails : Fragment where
  name := "Details"
  condition := "Post"
  selections := [.field none ⟨"title", 0⟩ [("limit", .variable "limit" 0)]
    [⟨"skip", [("if", .variable "after" 0)]⟩] []]

/-- The operation with its fragment. -/
def feed : Document := ⟨[], [feedOperation], [feedDetails]⟩

/-- What is given for the variables of the operation: null in spite of a default, and another value
than a default. -/
def feedGiven : Entries Constant := [("id", .string "7"), ("limit", .null), ("full", .bool true)]

/-- What is in the scope of the operation. -/
lemma mem_of_inScope_feed {s : Selection} (h : feed.InScope feedOperation s) :
    s ∈ feedOperation.selections ++ feedDetails.selections := by
  induction h with
  | top mem => exact List.mem_append_left _ mem
  | under _ mem ih =>
    have hnone : ∀ s ∈ feedOperation.selections ++ feedDetails.selections, s.selections = [] := by
      simp [feedOperation, feedDetails, Selection.selections]
    rw [hnone _ ih] at mem
    cases mem
  | spread _ found mem _ =>
    rw [List.mem_singleton.1 (mem_of_fragment? found).1] at mem
    exact List.mem_append_right _ mem

/-- The operation with the constants in place: no argument `after`, null in the list, null for the
limit, and a directive without a condition. -/
theorem expand_substitute_feed :
    feed.selectOperation none = .ok feedOperation ∧ feed.Declares feedOperation ∧
      feed.FirstDecides feedOperation (feedOperation.substitution feedGiven) ∧
      (feed.substitute (feedOperation.substitution feedGiven)).operations = [⟨none, [], [
        .field none ⟨"id", 0⟩ [("equals", .string "7"), ("limit", .null),
          ("tags", .list [.string "a", .null])] [] [],
        .spread ⟨"Details", 0⟩ [⟨"include", [("if", .bool true)]⟩]]⟩] ∧
      (feed.substitute (feedOperation.substitution feedGiven)).fragments = [⟨"Details", "Post", [
        .field none ⟨"title", 0⟩ [("limit", .null)] [⟨"skip", []⟩] []]⟩] ∧
      ∀ types rootType, ∃ nodes,
        (feed.substitute (feedOperation.substitution feedGiven)).expand types rootType none [] =
          .ok nodes ∧
        feed.expand types rootType none (Constant.fieldValues feedGiven) = .ok nodes := by
  have hselect : feed.selectOperation none = .ok feedOperation := rfl
  have hdeclares : feed.Declares feedOperation := by
    have hall : ∀ s ∈ feedOperation.selections ++ feedDetails.selections, ∀ l ∈ s.literals,
        ∀ name ∈ l.variableNames, ∃ definition ∈ feedOperation.variableDefinitions,
          definition.name = name := by decide +kernel
    exact fun s hs => hall s (mem_of_inScope_feed hs)
  have hfirst : feed.FirstDecides feedOperation (feedOperation.substitution feedGiven) := by
    have hall : ∀ s ∈ feedOperation.selections ++ feedDetails.selections,
        ∀ directive ∈ s.directives,
          directive.FirstDecides (feedOperation.substitution feedGiven) := by decide +kernel
    exact fun s hs => hall s (mem_of_inScope_feed hs)
  have hspec := expand_substitute hselect hdeclares feedGiven hfirst
  refine ⟨hselect, hdeclares, hfirst, rfl, rfl, fun types rootType => ?_⟩
  obtain ⟨nodes, hnodes⟩ := hspec.2.2.2.1 (by decide +kernel) types rootType
  exact ⟨nodes, (hspec.1 types rootType).trans hnodes, hnodes⟩

/-- An operation with a directive that has two conditions, the first a variable. -/
def twiceOperation : Operation where
  name := none
  variableDefinitions := [⟨"v", none⟩]
  selections := [
    .field none ⟨"id", 22⟩ [] [⟨"skip", [("if", .variable "v" 35), ("if", .bool true)]⟩] []]

/-- The operation in its document. -/
def twice : Document :=
  ⟨"query ($v: Boolean) { id @skip(if: $v, if: true) }".toList, [twiceOperation], []⟩

/-- Without a value the first condition says nothing, and the field stays.  Left out, it makes room
for the second one, and the field goes. -/
theorem expand_substitute_ne_twice :
    twice.selectOperation none = .ok twiceOperation ∧ twice.Declares twiceOperation ∧
      ∀ types rootType,
        (twice.expand types rootType none (Constant.fieldValues [])).map (·.map (·.name)) =
          .ok ["id"] ∧
        (twice.substitute (twiceOperation.substitution [])).expand types rootType none [] =
          .ok [] := by
  have hdeclares : twice.Declares twiceOperation := by
    intro s hs
    have hmem : s ∈ twiceOperation.selections := by
      induction hs with
      | top mem => exact mem
      | under _ mem ih =>
        cases List.mem_singleton.1 ih
        cases mem
      | spread _ found _ _ => cases found
    have hall : ∀ s ∈ twiceOperation.selections, ∀ l ∈ s.literals, ∀ name ∈ l.variableNames,
        ∃ definition ∈ twiceOperation.variableDefinitions, definition.name = name := by
      decide +kernel
    exact hall s hmem
  exact ⟨rfl, hdeclares, fun types rootType => ⟨rfl, rfl⟩⟩

end Document

end GraphProjection
