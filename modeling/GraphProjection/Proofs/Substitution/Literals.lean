import GraphProjection.Document.Expansion
import Mathlib.Tactic.Lemma

/-!
# Constants in the place of variables

When the variables of a request are constants, they can be written into the document instead.  In
the place of a variable stands the constant that the request gives, null included, else the default
that the operation declares.  A variable that is declared and has neither becomes null where it
stands inside a list or an object; an argument that is such a variable is left out.

Evaluation does not tell the two documents apart.  For literals and the arguments of a field this
holds without reservation (`Literal.evaluate_substitute`, `evaluateArguments_substitute`).  For
directives there is one: a directive looks at the first of its conditions, and when that one is left
out a later one takes its place.  `Directive.FirstDecides` says that this makes no difference, and
under it `Directive.included_substitute` holds.

Where all variables are declared, nothing but constants is left
(`Literal.exists_literal_substitute`), and a constant means the same whether it is read as a default
or as an argument (`Literal.evaluate_literal`).
-/

namespace GraphProjection

/-! ## Constants read as literals -/

section Constants

variable (d : Document) (v : Variables)

mutual

/-- A constant has the same value as a default and as an argument. -/
theorem Literal.evaluate_literal : (c : Constant) → c.literal.evaluate d v = .ok (some c.value)
  | .null => rfl
  | .bool _ => rfl
  | .int _ => rfl
  | .float _ => rfl
  | .string _ => rfl
  | .enum _ => rfl
  | .list items => by
    rw [Constant.literal, Literal.evaluate, Literal.evaluateItems_literalItems items,
      Constant.value]
  | .object fields => by
    rw [Constant.literal, Literal.evaluate, Literal.evaluateFields_literalFields fields,
      Constant.value]

lemma Literal.evaluateItems_literalItems : (items : List Constant) →
    Literal.evaluateItems d v (Constant.literalItems items) = .ok (Constant.itemValues items)
  | [] => rfl
  | item :: rest => by
    rw [Constant.literalItems, Literal.evaluateItems, Literal.evaluate_literal item,
      Literal.evaluateItems_literalItems rest, Constant.itemValues]
    rfl

lemma Literal.evaluateFields_literalFields : (fields : List (String × Constant)) →
    Literal.evaluateFields d v (Constant.literalFields fields) = .ok (Constant.fieldValues fields)
  | [] => rfl
  | (name, field) :: rest => by
    rw [Constant.literalFields, Literal.evaluateFields, Literal.evaluate_literal field,
      Literal.evaluateFields_literalFields rest, Constant.fieldValues]
    rfl

end

lemma exists_evaluateArguments {arguments : List (String × Literal)}
    (h : ∀ argument ∈ arguments, ∃ c : Constant, argument.2 = c.literal) (known : Arguments) :
    ∃ done, evaluateArguments d v arguments known = .ok done := by
  induction arguments generalizing known with
  | nil => exact ⟨known, rfl⟩
  | cons argument rest ih =>
    obtain ⟨name, literal⟩ := argument
    obtain ⟨⟨c, rfl⟩, hrest⟩ := List.forall_mem_cons.1 h
    rw [evaluateArguments, Literal.evaluate_literal]
    exact ih hrest _

lemma Directive.exists_included {directives : List Directive}
    (h : ∀ directive ∈ directives, ∀ argument ∈ directive.arguments,
      ∃ c : Constant, argument.2 = c.literal) :
    ∃ included, Directive.included d v directives = .ok included := by
  induction directives with
  | nil => exact ⟨true, rfl⟩
  | cons directive rest ih =>
    obtain ⟨hfirst, hrest⟩ := List.forall_mem_cons.1 h
    have hcondition : ∃ condition, directive.condition d v = .ok condition := by
      rw [condition]
      split
      · exact ⟨none, rfl⟩
      · next found =>
        obtain ⟨c, hc⟩ := hfirst _ (List.mem_of_find?_eq_some found)
        simp only at hc
        rw [hc, Literal.evaluate_literal]
        exact ⟨_, rfl⟩
    obtain ⟨condition, hcondition⟩ := hcondition
    rw [included, hcondition]
    split
    · exact ih hrest
    · simp only
      split
      · exact ⟨false, rfl⟩
      · exact ih hrest

end Constants

/-! ## The substitution -/

/-- What stands for the variables of an operation: what it declares, and the constants that a
request gives. -/
structure Substitution where
  declared : List VariableDefinition
  given : Entries Constant

/-- No variables. -/
def Variables.empty : Variables := ⟨[], []⟩

namespace Substitution

/-- The constant for a variable that is declared: the one given, else the default; nothing where
there is neither. -/
def constant? (σ : Substitution) (definition : VariableDefinition) : Option Constant :=
  (σ.given.get? definition.name).or definition.default

/-- What stands for a variable, provided that it is declared. -/
def replacement? (σ : Substitution) (name : String) : Option (Option Constant) :=
  (σ.declared.find? (·.name == name)).map σ.constant?

/-- The variables with the values of the constants. -/
def values (σ : Substitution) : Variables := ⟨σ.declared, Constant.fieldValues σ.given⟩

lemma get?_fieldValues (fields : Entries Constant) (name : String) :
    Entries.get? (Constant.fieldValues fields) name = (fields.get? name).map (·.value) := by
  induction fields with
  | nil => rfl
  | cons field rest ih =>
    obtain ⟨key, c⟩ := field
    rw [Constant.fieldValues, Entries.get?, Entries.get?]
    by_cases h : key = name
    · rw [if_pos h, if_pos h, Option.map_some]
    · rw [if_neg h, if_neg h, ih]

/-- A declared variable has the value of the constant that stands for it. -/
lemma value?_values (σ : Substitution) (definition : VariableDefinition) :
    σ.values.value? definition = (σ.constant? definition).map (·.value) := by
  rw [Variables.value?, values, get?_fieldValues, constant?, Option.map_or]

lemma lookup_of_replacement? {σ : Substitution} {name : String} {c : Option Constant}
    (h : σ.replacement? name = some c) (d : Document) (offset : Nat) :
    σ.values.lookup d name offset = .ok (c.map (·.value)) := by
  obtain ⟨definition, found, rfl⟩ := Option.map_eq_some_iff.1 h
  rw [Variables.lookup, values, found]
  exact congrArg Except.ok (σ.value?_values definition)

/-- A variable that is not declared is missed, be there other variables or none. -/
lemma lookup_of_replacement?_eq_none {σ : Substitution} {name : String}
    (h : σ.replacement? name = none) (d : Document) (offset : Nat) :
    σ.values.lookup d name offset = Variables.empty.lookup d name offset := by
  have found : σ.declared.find? (·.name == name) = none := Option.map_eq_none_iff.1 h
  rw [Variables.lookup, values, found]
  rfl

end Substitution

mutual

/-- Constants in the place of variables, a variable without a value becoming null.  A variable that
is not declared stays. -/
def Literal.substitute (σ : Substitution) : Literal → Literal
  | .variable name offset =>
    match σ.replacement? name with
    | some (some c) => c.literal
    | some none => .null
    | none => .variable name offset
  | .null => .null
  | .bool b => .bool b
  | .int n => .int n
  | .float f => .float f
  | .string s => .string s
  | .enum name => .enum name
  | .list items => .list (Literal.substituteItems σ items)
  | .object fields => .object (Literal.substituteFields σ fields)

/-- Constants in the place of variables in items. -/
def Literal.substituteItems (σ : Substitution) : List Literal → List Literal
  | [] => []
  | item :: rest => item.substitute σ :: Literal.substituteItems σ rest

/-- Constants in the place of variables in fields. -/
def Literal.substituteFields (σ : Substitution) : List (String × Literal) → List (String × Literal)
  | [] => []
  | (name, field) :: rest => (name, field.substitute σ) :: Literal.substituteFields σ rest

end

/-- Whether a literal is itself a variable that is declared and has no value. -/
def Literal.isUnset (σ : Substitution) : Literal → Bool
  | .variable name _ => (σ.replacement? name).any (·.isNone)
  | _ => false

/-- Constants in the place of variables in arguments.  An argument that is a variable without a
value is left out. -/
def substituteArguments (σ : Substitution) (arguments : List (String × Literal)) :
    List (String × Literal) :=
  Literal.substituteFields σ (arguments.filter fun argument => !argument.2.isUnset σ)

/-- Constants in the place of variables in a directive. -/
def Directive.substitute (σ : Substitution) (directive : Directive) : Directive :=
  { directive with arguments := substituteArguments σ directive.arguments }

/-! ## What literals evaluate to -/

section Evaluation

variable (d : Document) (σ : Substitution)

lemma Literal.replacement?_of_isUnset {σ : Substitution} {name : String} {offset : Nat}
    (h : (Literal.variable name offset).isUnset σ = true) : σ.replacement? name = some none := by
  rw [Literal.isUnset, Option.any_eq_true] at h
  obtain ⟨c, hreplacement, hnone⟩ := h
  rw [hreplacement, Option.isNone_iff_eq_none.1 hnone]

/-- A variable without a value evaluates to nothing, and null stands in its place. -/
lemma Literal.evaluate_of_isUnset {σ : Substitution} : {l : Literal} → l.isUnset σ = true →
    l.evaluate d σ.values = .ok none ∧ l.substitute σ = .null
  | .variable name offset, h => by
    have hreplacement := Literal.replacement?_of_isUnset h
    rw [Literal.evaluate, Literal.substitute, hreplacement]
    exact ⟨Substitution.lookup_of_replacement? hreplacement d offset, rfl⟩

mutual

/-- Every literal evaluates as before, apart from a variable without a value. -/
theorem Literal.evaluate_substitute : (l : Literal) → l.isUnset σ = false →
    (l.substitute σ).evaluate d .empty = l.evaluate d σ.values
  | .variable name offset, h => by
    rw [Literal.substitute, Literal.evaluate]
    split
    · next c hreplacement =>
      rw [Literal.evaluate_literal, Substitution.lookup_of_replacement? hreplacement]
      rfl
    · next hreplacement =>
      rw [Literal.isUnset, hreplacement] at h
      cases h
    · next hreplacement =>
      rw [Literal.evaluate, Substitution.lookup_of_replacement?_eq_none hreplacement]
  | .list items, _ => by
    rw [Literal.substitute, Literal.evaluate, Literal.evaluate,
      Literal.evaluateItems_substitute items]
  | .object fields, _ => by
    rw [Literal.substitute, Literal.evaluate, Literal.evaluate,
      Literal.evaluateFields_substitute fields]
  | .null, _ => rfl
  | .bool _, _ => rfl
  | .int _, _ => rfl
  | .float _, _ => rfl
  | .string _, _ => rfl
  | .enum _, _ => rfl

lemma Literal.evaluateItems_substitute : (items : List Literal) →
    Literal.evaluateItems d .empty (Literal.substituteItems σ items) =
      Literal.evaluateItems d σ.values items
  | [] => rfl
  | item :: rest => by
    rw [Literal.substituteItems, Literal.evaluateItems, Literal.evaluateItems,
      Literal.evaluateItems_substitute rest]
    by_cases hunset : item.isUnset σ = true
    · obtain ⟨hnone, hnull⟩ := Literal.evaluate_of_isUnset d hunset
      rw [hnone, hnull]
      rfl
    · rw [Literal.evaluate_substitute item (eq_false_of_ne_true hunset)]

lemma Literal.evaluateFields_substitute : (fields : List (String × Literal)) →
    Literal.evaluateFields d .empty (Literal.substituteFields σ fields) =
      Literal.evaluateFields d σ.values fields
  | [] => rfl
  | (name, field) :: rest => by
    rw [Literal.substituteFields, Literal.evaluateFields, Literal.evaluateFields,
      Literal.evaluateFields_substitute rest]
    by_cases hunset : field.isUnset σ = true
    · obtain ⟨hnone, hnull⟩ := Literal.evaluate_of_isUnset d hunset
      rw [hnone, hnull]
      rfl
    · rw [Literal.evaluate_substitute field (eq_false_of_ne_true hunset)]

end

/-- The arguments of a field are the same as before. -/
theorem evaluateArguments_substitute (arguments : List (String × Literal)) (known : Arguments) :
    evaluateArguments d .empty (substituteArguments σ arguments) known =
      evaluateArguments d σ.values arguments known := by
  induction arguments generalizing known with
  | nil => rfl
  | cons argument rest ih =>
    obtain ⟨name, literal⟩ := argument
    rw [evaluateArguments]
    by_cases hunset : literal.isUnset σ = true
    · rw [(Literal.evaluate_of_isUnset d hunset).1, ← ih known, substituteArguments,
        List.filter_cons_of_neg (by simpa using hunset)]
      rfl
    · have hset := eq_false_of_ne_true hunset
      have hsplit : substituteArguments σ ((name, literal) :: rest) =
          (name, literal.substitute σ) :: substituteArguments σ rest := by
        rw [substituteArguments, List.filter_cons_of_pos (by simpa using hset)]
        rfl
      rw [hsplit, evaluateArguments, Literal.evaluate_substitute d σ literal hset]
      simp only [ih]

end Evaluation

/-! ## What directives say -/

lemma Literal.substituteFields_eq_map (σ : Substitution) (fields : List (String × Literal)) :
    Literal.substituteFields σ fields =
      fields.map fun field => (field.1, field.2.substitute σ) := by
  induction fields with
  | nil => rfl
  | cons field rest ih => rw [Literal.substituteFields, ih, List.map_cons]

lemma mem_substituteArguments {σ : Substitution} {arguments : List (String × Literal)}
    {argument : String × Literal} (h : argument ∈ substituteArguments σ arguments) :
    ∃ before ∈ arguments, argument = (before.1, before.2.substitute σ) := by
  rw [substituteArguments, Literal.substituteFields_eq_map, List.mem_map] at h
  obtain ⟨before, hbefore, rfl⟩ := h
  exact ⟨before, (List.mem_filter.1 hbefore).1, rfl⟩

namespace Directive

variable {σ : Substitution} {directive : Directive}

/-- Behind a condition that is a variable without a value a directive has no other condition, unless
that is such a variable as well. -/
def FirstDecides (σ : Substitution) (directive : Directive) : Prop :=
  directive.excludedWhen?.isSome = true →
    ∀ first ∈ directive.arguments.find? (·.1 == "if"), first.2.isUnset σ = true →
      ∀ argument ∈ directive.arguments, argument.1 = "if" → argument.2.isUnset σ = true

instance (σ : Substitution) (directive : Directive) : Decidable (directive.FirstDecides σ) :=
  inferInstanceAs (Decidable (_ → _))

/-- The condition that is looked at is the first one that has not been left out. -/
lemma find?_substituteArguments (σ : Substitution) (arguments : List (String × Literal)) :
    (substituteArguments σ arguments).find? (·.1 == "if") =
      (arguments.find? fun argument => !argument.2.isUnset σ && argument.1 == "if").map
        fun argument => (argument.1, argument.2.substitute σ) := by
  rw [substituteArguments, Literal.substituteFields_eq_map, List.find?_map, List.find?_filter]
  refine congrArg (Option.map _) (congrArg (List.find? · arguments) (funext fun argument => ?_))
  by_cases hname : argument.1 = "if" <;> simp [hname]

/-- It is the one from before, when that one has a value. -/
lemma find?_of_first {arguments : List (String × Literal)} {first : String × Literal}
    (found : arguments.find? (·.1 == "if") = some first) (hset : first.2.isUnset σ = false) :
    (arguments.find? fun argument => !argument.2.isUnset σ && argument.1 == "if") = some first := by
  obtain ⟨hname, before, after, rfl, hbefore⟩ := List.find?_eq_some_iff_append.1 found
  refine List.find?_eq_some_iff_append.2 ⟨by rw [hset, hname]; rfl, before, after, rfl, ?_⟩
  intro argument hargument
  rw [Bool.not_and, hbefore argument hargument, Bool.or_true]

/-- There is none, when none has a value. -/
lemma find?_of_unset {arguments : List (String × Literal)}
    (h : ∀ argument ∈ arguments, argument.1 = "if" → argument.2.isUnset σ = true) :
    (arguments.find? fun argument => !argument.2.isUnset σ && argument.1 == "if") = none := by
  refine List.find?_eq_none.2 fun argument hargument hset => ?_
  obtain ⟨hset, hname⟩ := Bool.and_eq_true_iff.1 hset
  rw [h argument hargument (beq_iff_eq.1 hname)] at hset
  cases hset

variable (d : Document)

lemma condition_substitute (h : directive.FirstDecides σ)
    (hexcludes : directive.excludedWhen?.isSome = true) :
    (directive.substitute σ).condition d .empty = directive.condition d σ.values := by
  rw [condition, condition, substitute]
  cases found : directive.arguments.find? (·.1 == "if") with
  | none =>
    have hnone : ∀ argument ∈ directive.arguments, argument.1 = "if" →
        argument.2.isUnset σ = true := by
      intro argument hargument hname
      exact absurd (beq_iff_eq.2 hname) (List.find?_eq_none.1 found argument hargument)
    simp only [find?_substituteArguments, find?_of_unset hnone, Option.map_none]
  | some first =>
    by_cases hunset : first.2.isUnset σ = true
    · have hnone := h hexcludes first found hunset
      simp only [find?_substituteArguments, find?_of_unset hnone, Option.map_none,
        (Literal.evaluate_of_isUnset d hunset).1, Option.bind_none]
    · have hset := eq_false_of_ne_true hunset
      simp only [find?_substituteArguments, find?_of_first found hset, Option.map_some,
        Literal.evaluate_substitute d σ _ hset]

/-- Directives leave the same selections in as before. -/
theorem included_substitute {directives : List Directive}
    (h : ∀ directive ∈ directives, directive.FirstDecides σ) :
    included d .empty (directives.map (·.substitute σ)) = included d σ.values directives := by
  induction directives with
  | nil => rfl
  | cons directive rest ih =>
    obtain ⟨hfirst, hrest⟩ := List.forall_mem_cons.1 h
    have hname : (directive.substitute σ).excludedWhen? = directive.excludedWhen? := rfl
    rw [List.map_cons, included, included, hname, ih hrest]
    cases hexcluded : directive.excludedWhen? with
    | none => rfl
    | some excluded =>
      simp only [condition_substitute d hfirst (hexcluded ▸ rfl)]

end Directive

/-! ## Nothing but constants -/

mutual

/-- The variables that a literal uses. -/
def Literal.variableNames : Literal → List String
  | .variable name _ => [name]
  | .list items => Literal.itemVariableNames items
  | .object fields => Literal.fieldVariableNames fields
  | .null | .bool _ | .int _ | .float _ | .string _ | .enum _ => []

/-- The variables that items use. -/
def Literal.itemVariableNames : List Literal → List String
  | [] => []
  | item :: rest => item.variableNames ++ Literal.itemVariableNames rest

/-- The variables that fields use. -/
def Literal.fieldVariableNames : List (String × Literal) → List String
  | [] => []
  | (_, field) :: rest => field.variableNames ++ Literal.fieldVariableNames rest

end

section Declared

variable {σ : Substitution}

mutual

/-- A literal whose variables are declared becomes a constant. -/
theorem Literal.exists_literal_substitute : (l : Literal) →
    (∀ name ∈ l.variableNames, (σ.replacement? name).isSome = true) →
    ∃ c : Constant, l.substitute σ = c.literal
  | .variable name offset, h => by
    rw [Literal.variableNames, List.forall_mem_singleton] at h
    rw [Literal.substitute]
    split
    · next c _ => exact ⟨c, rfl⟩
    · exact ⟨.null, rfl⟩
    · next hreplacement =>
      rw [hreplacement] at h
      cases h
  | .list items, h => by
    rw [Literal.variableNames] at h
    obtain ⟨constants, hconstants⟩ := Literal.exists_literalItems_substitute items h
    exact ⟨.list constants, by rw [Literal.substitute, hconstants, Constant.literal]⟩
  | .object fields, h => by
    rw [Literal.variableNames] at h
    obtain ⟨constants, hconstants⟩ := Literal.exists_literalFields_substitute fields h
    exact ⟨.object constants, by rw [Literal.substitute, hconstants, Constant.literal]⟩
  | .null, _ => ⟨.null, rfl⟩
  | .bool b, _ => ⟨.bool b, rfl⟩
  | .int n, _ => ⟨.int n, rfl⟩
  | .float f, _ => ⟨.float f, rfl⟩
  | .string s, _ => ⟨.string s, rfl⟩
  | .enum name, _ => ⟨.enum name, rfl⟩

lemma Literal.exists_literalItems_substitute : (items : List Literal) →
    (∀ name ∈ Literal.itemVariableNames items, (σ.replacement? name).isSome = true) →
    ∃ constants, Literal.substituteItems σ items = Constant.literalItems constants
  | [], _ => ⟨[], rfl⟩
  | item :: rest, h => by
    rw [Literal.itemVariableNames, List.forall_mem_append] at h
    obtain ⟨c, hc⟩ := Literal.exists_literal_substitute item h.1
    obtain ⟨constants, hconstants⟩ := Literal.exists_literalItems_substitute rest h.2
    exact ⟨c :: constants, by rw [Literal.substituteItems, hc, hconstants, Constant.literalItems]⟩

lemma Literal.exists_literalFields_substitute : (fields : List (String × Literal)) →
    (∀ name ∈ Literal.fieldVariableNames fields, (σ.replacement? name).isSome = true) →
    ∃ constants, Literal.substituteFields σ fields = Constant.literalFields constants
  | [], _ => ⟨[], rfl⟩
  | (name, field) :: rest, h => by
    rw [Literal.fieldVariableNames, List.forall_mem_append] at h
    obtain ⟨c, hc⟩ := Literal.exists_literal_substitute field h.1
    obtain ⟨constants, hconstants⟩ := Literal.exists_literalFields_substitute rest h.2
    exact ⟨(name, c) :: constants,
      by rw [Literal.substituteFields, hc, hconstants, Constant.literalFields]⟩

end

end Declared

end GraphProjection
