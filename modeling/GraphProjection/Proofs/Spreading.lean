import GraphProjection.Document.Expansion
import GraphProjection.Proofs.Fragments

/-!
# Expanding sound documents

Expansion is written with a guard: a fragment that is being expanded is not there to be spread
again.  Where the fragments have been checked the guard has nothing to do.  `spreadOnce` is one step
of an expansion without it, which looks every spread up among all fragments of the document, and
`expandSpread_eq_spreadTo` says that so many steps as there are fragments, and one more, give what
the guarded expansion gives, whatever may stand below them: nothing is left to be spread there.

What can still fail is a variable that the operation does not declare
(`error_of_expandOperation`).  The main statement, **`checkFragments_spec`**, puts this beside what
the check accepts.
-/

namespace GraphProjection

/-! ## Errors of evaluation -/

/-- The error is about a variable that is not declared. -/
def OperationError.IsMissingVariable (e : OperationError) : Prop :=
  ∃ name location, e = .missingVariable name location

lemma error_of_lookup {v : Variables} {d : Document} {name : String} {offset : Nat}
    {e : OperationError} (h : v.lookup d name offset = .error e) : e.IsMissingVariable := by
  rw [Variables.lookup] at h
  split at h
  · cases h
  · cases h
    exact ⟨name, d.locate offset, rfl⟩

section Evaluation

variable {d : Document} {v : Variables} {e : OperationError}

mutual

lemma error_of_evaluate : (l : Literal) → l.evaluate d v = .error e → e.IsMissingVariable
  | .variable name offset, h => error_of_lookup (by rwa [Literal.evaluate] at h)
  | .null, h => by rw [Literal.evaluate] at h; cases h
  | .bool _, h => by rw [Literal.evaluate] at h; cases h
  | .int _, h => by rw [Literal.evaluate] at h; cases h
  | .float _, h => by rw [Literal.evaluate] at h; cases h
  | .string _, h => by rw [Literal.evaluate] at h; cases h
  | .enum _, h => by rw [Literal.evaluate] at h; cases h
  | .list items, h => by
    rw [Literal.evaluate] at h
    split at h
    · cases h
    · next hitems =>
      cases h
      exact error_of_evaluateItems items hitems
  | .object fields, h => by
    rw [Literal.evaluate] at h
    split at h
    · cases h
    · next hfields =>
      cases h
      exact error_of_evaluateFields fields hfields

lemma error_of_evaluateItems : (items : List Literal) →
    Literal.evaluateItems d v items = .error e → e.IsMissingVariable
  | [], h => by rw [Literal.evaluateItems] at h; cases h
  | item :: rest, h => by
    rw [Literal.evaluateItems] at h
    split at h
    · next hitem =>
      cases h
      exact error_of_evaluate item hitem
    · split at h
      · next hrest =>
        cases h
        exact error_of_evaluateItems rest hrest
      · cases h

lemma error_of_evaluateFields : (fields : List (String × Literal)) →
    Literal.evaluateFields d v fields = .error e → e.IsMissingVariable
  | [], h => by rw [Literal.evaluateFields] at h; cases h
  | (name, field) :: rest, h => by
    rw [Literal.evaluateFields] at h
    split at h
    · next hfield =>
      cases h
      exact error_of_evaluate field hfield
    · split at h
      · next hrest =>
        cases h
        exact error_of_evaluateFields rest hrest
      · cases h

end

lemma error_of_evaluateArguments {arguments : List (String × Literal)} {known : Arguments}
    (h : evaluateArguments d v arguments known = .error e) : e.IsMissingVariable := by
  induction arguments generalizing known with
  | nil => cases h
  | cons argument rest ih =>
    obtain ⟨name, literal⟩ := argument
    rw [evaluateArguments] at h
    split at h
    · next hliteral =>
      cases h
      exact error_of_evaluate literal hliteral
    · exact ih h
    · exact ih h

lemma error_of_included {directives : List Directive}
    (h : Directive.included d v directives = .error e) : e.IsMissingVariable := by
  induction directives with
  | nil => cases h
  | cons directive rest ih =>
    rw [Directive.included] at h
    split at h
    · exact ih h
    · split at h
      · next hcondition =>
        cases h
        rw [Directive.condition] at hcondition
        split at hcondition
        · cases hcondition
        · next literal _ =>
          split at hcondition
          · next hliteral =>
            cases hcondition
            exact error_of_evaluate literal hliteral
          · cases hcondition
      · split at h
        · cases h
        · exact ih h

end Evaluation

namespace Expansion

open Document

/-! ## What an expansion makes of its spreads -/

section Spreads

variable {x : Expansion} {spread other : Spreading}

mutual

/-- The fields of a selection depend on what its own spreads stand for. -/
lemma expandSelection_congr (parent : Option String) : (s : Selection) →
    (∀ name ∈ s.spreads, ∀ parent, spread name parent = other name parent) →
    x.expandSelection spread parent s = x.expandSelection other parent s
  | .field key name arguments directives selections, h => by
    rw [Selection.spreads] at h
    rw [expandSelection, expandSelection,
      expandAll_congr (x.childType parent name.text) selections h]
  | .inlineFragment condition directives selections, h => by
    rw [Selection.spreads] at h
    rw [expandSelection, expandSelection, expandAll_congr (parent.or condition) selections h]
  | .spread fragment directives, h => by
    rw [Selection.spreads] at h
    rw [expandSelection, expandSelection, h fragment (List.mem_singleton_self _) parent]

lemma expandAll_congr (parent : Option String) : (selections : List Selection) →
    (∀ name ∈ Selection.spreadsIn selections, ∀ parent, spread name parent = other name parent) →
    x.expandAll spread parent selections = x.expandAll other parent selections
  | [], _ => by rw [expandAll, expandAll]
  | s :: rest, h => by
    rw [Selection.spreadsIn, List.forall_mem_append] at h
    rw [expandAll, expandAll, expandSelection_congr parent s h.1, expandAll_congr parent rest h.2]

end

mutual

/-- What fails in a selection are undeclared variables, where nothing else fails in its spreads. -/
lemma error_of_expandSelection {e : OperationError} (parent : Option String) :
    (s : Selection) → (∀ name ∈ s.spreads, ∀ parent, spread name parent = .error e →
      e.IsMissingVariable) → x.expandSelection spread parent s = .error e → e.IsMissingVariable
  | .field key name arguments directives selections, hspread, h => by
    rw [Selection.spreads] at hspread
    rw [expandSelection] at h
    -- Directives fail first, then arguments, and then what is below.
    split at h
    · next hincluded =>
      cases h
      exact error_of_included hincluded
    · cases h
    · split at h
      · next harguments =>
        cases h
        exact error_of_evaluateArguments harguments
      · split at h
        · next hchildren =>
          cases h
          exact error_of_expandAll _ selections hspread hchildren
        · cases h
  | .inlineFragment condition directives selections, hspread, h => by
    rw [Selection.spreads] at hspread
    rw [expandSelection] at h
    split at h
    · next hincluded =>
      cases h
      exact error_of_included hincluded
    · cases h
    · split at h
      · exact error_of_expandAll _ selections hspread h
      · cases h
  | .spread fragment directives, hspread, h => by
    rw [Selection.spreads] at hspread
    rw [expandSelection] at h
    split at h
    · next hincluded =>
      cases h
      exact error_of_included hincluded
    · cases h
    · exact hspread fragment (List.mem_singleton_self _) parent h

lemma error_of_expandAll {e : OperationError} (parent : Option String) :
    (selections : List Selection) → (∀ name ∈ Selection.spreadsIn selections, ∀ parent,
      spread name parent = .error e → e.IsMissingVariable) →
    x.expandAll spread parent selections = .error e → e.IsMissingVariable
  | [], _, h => by
    rw [expandAll] at h
    cases h
  | s :: rest, hspread, h => by
    rw [Selection.spreadsIn, List.forall_mem_append] at hspread
    rw [expandAll] at h
    split at h
    · next hfirst =>
      cases h
      exact error_of_expandSelection parent s hspread.1 hfirst
    · split at h
      · next hrest =>
        cases h
        exact error_of_expandAll parent rest hspread.2 hrest
      · cases h

end

end Spreads

/-! ## Expansion without its guard -/

/-- One step of expansion: a spread stands for the fields of the first fragment of its name, in
which spreads stand for what `spread` says. -/
def spreadOnce (x : Expansion) (spread : Spreading) : Spreading := fun name parent =>
  match x.document.fragment? name.text with
  | none => .error (.unknownFragment name.text (x.document.locate name.offset))
  | some f =>
    if typeMatches parent (some f.condition) then
      x.expandAll spread (parent.or (some f.condition)) f.selections
    else .ok []

/-- So many steps of expansion, with `bottom` below them. -/
def spreadTo (x : Expansion) (bottom : Spreading) : Nat → Spreading
  | 0 => bottom
  | n + 1 => x.spreadOnce (x.spreadTo bottom n)

/-- A spread of a fragment that is not on the way is looked up as if no fragment were. -/
lemma expandSpread_eq {x : Expansion} {way : List String} {pending : List Fragment}
    (h : x.document.Pending way pending) {name : Name} (hway : name.text ∉ way)
    (parent : Option String) :
    x.expandSpread pending name parent =
      x.spreadOnce (x.expandSpread (Fragment.without name.text pending)) name parent := by
  rw [expandSpread, spreadOnce]
  have hfind := h name.text hway
  split
  · next hnone => rw [hfind.symm.trans hnone]
  · next f hf => rw [hfind.symm.trans hf]

/-- **Expansion without a guard is finite.**  A fragment that can be expanded to the end is
expanded in no more steps than there are fragments that are not on the way, and one. -/
theorem expandSpread_eq_spreadTo {x : Expansion} {way : List String} {pending : List Fragment}
    (hpending : x.document.Pending way pending) (bottom : Spreading) {n : Nat}
    (hn : pending.length < n) {name : Name} (hname : x.document.Expandable name.text)
    (hway : x.document.Leads way name.text) (parent : Option String) :
    x.expandSpread pending name parent = x.spreadTo bottom n name parent := by
  induction n generalizing way pending name parent with
  | zero => exact absurd hn (Nat.not_lt_zero _)
  | succ n ih =>
    have hnot := hway.not_mem hname
    rw [expandSpread_eq hpending hnot, spreadTo, spreadOnce, spreadOnce]
    split
    · rfl
    · next f hf =>
      have hlt := hpending.length_without_lt hnot hf
      have hbelow : ∀ inner ∈ Selection.spreadsIn f.selections, ∀ parent,
          x.expandSpread (Fragment.without name.text pending) inner parent =
            x.spreadTo bottom n inner parent := by
        intro inner hinner parent
        exact ih (hpending.without name.text) (by omega)
          (hname.of_spreads ⟨f, hf, inner, hinner, rfl⟩) (hway.below hf hinner) parent
      rw [expandAll_congr _ f.selections hbelow]

/-- A fragment that can be expanded to the end fails at undeclared variables only. -/
lemma error_of_expandSpread {x : Expansion} {name : String} (h : x.document.Expandable name)
    {way : List String} {pending : List Fragment} (hpending : x.document.Pending way pending)
    (hway : x.document.Leads way name) {spread : Name} (hspread : spread.text = name)
    {parent : Option String} {e : OperationError}
    (he : x.expandSpread pending spread parent = .error e) : e.IsMissingVariable := by
  induction h generalizing way pending spread parent e with
  | @intro name f found below ih =>
    subst hspread
    rw [expandSpread_eq hpending (hway.not_mem (.intro found below)), spreadOnce, found] at he
    simp only at he
    split at he
    · refine error_of_expandAll _ f.selections (fun inner hinner parent hinnerError => ?_) he
      exact ih inner hinner (hpending.without spread.text) (hway.below found hinner) rfl
        hinnerError
    · cases he

end Expansion

namespace Document

/-- The expansion of an operation of a document. -/
def expansion (d : Document) (types : TypeInfo) (operation : Operation) (given : Arguments) :
    Expansion :=
  ⟨d, types, ⟨operation.variableDefinitions, given⟩⟩

/-- A sound operation is expanded in so many steps as there are fragments, and one, and without a
guard. -/
theorem Sound.expandOperation_eq {d : Document} {operation : Operation} (h : d.Sound operation)
    (types : TypeInfo) (rootType : String) (given : Arguments) (bottom : Expansion.Spreading) :
    d.expandOperation types rootType operation given =
      (d.expansion types operation given).expandAll
        ((d.expansion types operation given).spreadTo bottom (d.fragments.length + 1))
        (some rootType) operation.selections := by
  refine Expansion.expandAll_congr (some rootType) operation.selections
    fun name hname parent => ?_
  exact Expansion.expandSpread_eq_spreadTo (Pending.start d) bottom (Nat.lt_succ_self _)
    (h.expandable (h.known name hname)) (fun _ hother => absurd hother List.not_mem_nil) parent

/-- A sound operation fails to be expanded at undeclared variables only. -/
theorem Sound.error_of_expandOperation {d : Document} {operation : Operation}
    (h : d.Sound operation) {types : TypeInfo} {rootType : String} {given : Arguments}
    {e : OperationError} (he : d.expandOperation types rootType operation given = .error e) :
    e.IsMissingVariable := by
  refine Expansion.error_of_expandAll (some rootType) operation.selections
    (fun name hname parent hspread => ?_) he
  exact Expansion.error_of_expandSpread (h.expandable (h.known name hname)) (Pending.start d)
    (fun _ hother => absurd hother List.not_mem_nil) rfl hspread

/-- **The check of the fragments accepts exactly the sound documents, and what it accepts can be
expanded.**

The walk comes to an end on every document: a walk that looks every fragment up in the document,
from the operation and from each fragment, is done after so many steps as there are fragments, and
one, whatever stands below them.  It accepts an operation when all spreads name fragments and no
fragment reaches itself.  And where it does, an expansion without a guard is done after as many
steps, for all types and all values of variables, and its errors are undeclared variables, neither
cycles nor unknown fragments. -/
theorem checkFragments_spec (d : Document) (operation : Operation) :
    (∀ bottom : Following,
      followSpread d d.fragments [] = d.followTo bottom (d.fragments.length + 1) [] ∧
        ∀ f ∈ d.fragments, followSpread d (Fragment.without f.name d.fragments) [f.name] =
          d.followTo bottom (d.fragments.length + 1) [f.name]) ∧
      (d.checkFragments operation = .ok () ↔ d.Sound operation) ∧
      (d.checkFragments operation = .ok () → ∀ types rootType given,
        (∀ bottom : Expansion.Spreading, d.expandOperation types rootType operation given =
          (d.expansion types operation given).expandAll
            ((d.expansion types operation given).spreadTo bottom (d.fragments.length + 1))
            (some rootType) operation.selections) ∧
          ∀ e, d.expandOperation types rootType operation given = .error e →
            e.IsMissingVariable) := by
  have hstart := Pending.start d
  refine ⟨fun bottom => ⟨?_, fun f hf => ?_⟩, checkFragments_eq_ok_iff d operation, ?_⟩
  · exact followSpread_eq_followTo hstart bottom (Nat.lt_succ_self _)
  · obtain ⟨found, hfound⟩ := Option.isSome_iff_exists.1 (isSome_fragment?_of_mem hf)
    have hlt := hstart.length_without_lt List.not_mem_nil hfound
    exact followSpread_eq_followTo (hstart.without f.name) bottom (by omega)
  · intro h types rootType given
    have hsound := (checkFragments_eq_ok_iff d operation).1 h
    exact ⟨hsound.expandOperation_eq types rootType given,
      fun e he => hsound.error_of_expandOperation he⟩

/-! ## A chain of fragments -/

/-- A fragment that spreads another one; of the second name there is a further definition, which
spreads itself and is not looked at. -/
def chain : Document where
  source := []
  operations := []
  fragments := [
    ⟨"First", "Post", [.field none ⟨"author", 0⟩ [] [] [.spread ⟨"Second", 0⟩ []]]⟩,
    ⟨"Second", "Author", [.field none ⟨"name", 0⟩ [] [] []]⟩,
    ⟨"Second", "Author", [.spread ⟨"Second", 0⟩ []]⟩]

/-- An operation that spreads the first fragment below a variable that it does not declare. -/
def chainOperation : Operation where
  name := none
  variableDefinitions := []
  selections := [.field none ⟨"post", 0⟩ [("id", .variable "id" 0)] [] [.spread ⟨"First", 0⟩ []]]

/-- The chain is accepted, so its operation fails for its variable if it fails. -/
theorem checkFragments_spec_chain :
    chain.checkFragments chainOperation = .ok () ∧ chain.Sound chainOperation ∧
      ∀ types given e, chain.expandOperation types "Query" chainOperation given = .error e →
        e.IsMissingVariable := by
  have hok : chain.checkFragments chainOperation = .ok () := by cbv
  have hspec := checkFragments_spec chain chainOperation
  exact ⟨hok, hspec.2.1.1 hok, fun types given => (hspec.2.2 hok types "Query" given).2⟩

end Document

end GraphProjection
