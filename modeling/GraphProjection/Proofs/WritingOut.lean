import GraphProjection.Proofs.Spreading

/-!
# Spreads written out in place

A spread can be replaced by an inline fragment with the same directives, on the condition of the
fragment that it names, and with the selections of that fragment.  `Selection.WritesOut` does so for
one spread anywhere in a list of selections, and `Document.WritesOut` for one spread anywhere in a
document, in an operation or in the body of a fragment.

What spreads stand for in a document solves one equation, that of a step of expansion without a
guard (`Expansion.Solves`), and where the fragments can be expanded to the end there is one solution
only (`Expansion.Solves.unique`).  The inline fragment is that equation read from right to left, so
what spreads stand for after one was written out solves the equation of the document as it was
(`Expansion.solves_of_writesOut`).

Main statement: **`expand_of_writesOut`**.
-/

namespace GraphProjection

/-! ## Values and directives, with another document at hand

Of the document only the text is looked at, to say where an undeclared variable stands.
-/

section Source

variable {d d' : Document} (v : Variables)

lemma Document.locate_congr (hsource : d'.source = d.source) (offset : Nat) :
    d'.locate offset = d.locate offset := by
  rw [locate, locate, hsource]

lemma Variables.lookup_congr (hsource : d'.source = d.source) (name : String) (offset : Nat) :
    v.lookup d' name offset = v.lookup d name offset := by
  rw [lookup, lookup, Document.locate_congr hsource]

mutual

lemma Literal.evaluate_congr (hsource : d'.source = d.source) : (l : Literal) →
    l.evaluate d' v = l.evaluate d v
  | .variable name offset => by
    rw [Literal.evaluate, Literal.evaluate, Variables.lookup_congr v hsource]
  | .list items => by rw [Literal.evaluate, Literal.evaluate, evaluateItems_congr hsource items]
  | .object fields => by
    rw [Literal.evaluate, Literal.evaluate, evaluateFields_congr hsource fields]
  | .null => rfl
  | .bool _ => rfl
  | .int _ => rfl
  | .float _ => rfl
  | .string _ => rfl
  | .enum _ => rfl

lemma Literal.evaluateItems_congr (hsource : d'.source = d.source) : (items : List Literal) →
    Literal.evaluateItems d' v items = Literal.evaluateItems d v items
  | [] => rfl
  | item :: rest => by
    rw [Literal.evaluateItems, Literal.evaluateItems, evaluate_congr hsource item,
      evaluateItems_congr hsource rest]

lemma Literal.evaluateFields_congr (hsource : d'.source = d.source) :
    (fields : List (String × Literal)) →
    Literal.evaluateFields d' v fields = Literal.evaluateFields d v fields
  | [] => rfl
  | (_, field) :: rest => by
    rw [Literal.evaluateFields, Literal.evaluateFields, evaluate_congr hsource field,
      evaluateFields_congr hsource rest]

end

lemma evaluateArguments_congr (hsource : d'.source = d.source)
    (arguments : List (String × Literal)) (known : Arguments) :
    evaluateArguments d' v arguments known = evaluateArguments d v arguments known := by
  induction arguments generalizing known with
  | nil => rfl
  | cons argument rest ih =>
    obtain ⟨name, literal⟩ := argument
    rw [evaluateArguments, evaluateArguments, Literal.evaluate_congr v hsource]
    simp only [ih]

lemma Directive.included_congr (hsource : d'.source = d.source) (directives : List Directive) :
    Directive.included d' v directives = Directive.included d v directives := by
  induction directives with
  | nil => rfl
  | cons directive rest ih =>
    have hcondition : directive.condition d' v = directive.condition d v := by
      rw [condition, condition]
      simp only [Literal.evaluate_congr v hsource]
    rw [included, included, ih, hcondition]

end Source

namespace Expansion

variable {x : Expansion} {d' : Document}

mutual

lemma expandSelection_withDocument (hsource : d'.source = x.document.source) (spread : Spreading)
    (parent : Option String) : (s : Selection) →
    expandSelection { x with document := d' } spread parent s = x.expandSelection spread parent s
  | .field key name arguments directives selections => by
    have hbelow := expandAll_withDocument hsource spread (x.childType parent name.text) selections
    rw [expandSelection, expandSelection, Directive.included_congr _ hsource,
      evaluateArguments_congr _ hsource, place, place, Document.locate_congr hsource, ← hbelow]
    rfl
  | .inlineFragment condition directives selections => by
    rw [expandSelection, expandSelection, Directive.included_congr _ hsource,
      expandAll_withDocument hsource spread (parent.or condition) selections]
  | .spread fragment directives => by
    rw [expandSelection, expandSelection, Directive.included_congr _ hsource]

/-- Fields are expanded in the same way in a document with the same text, as long as spreads stand
for the same. -/
theorem expandAll_withDocument (hsource : d'.source = x.document.source) (spread : Spreading)
    (parent : Option String) : (selections : List Selection) →
    expandAll { x with document := d' } spread parent selections =
      x.expandAll spread parent selections
  | [] => by rw [expandAll, expandAll]
  | s :: rest => by
    rw [expandAll, expandAll, expandSelection_withDocument hsource spread parent s,
      expandAll_withDocument hsource spread parent rest]

end

end Expansion

/-! ## One spread written out -/

/-- One spread among selections, at any depth, is replaced by an inline fragment that says what the
fragment of its name says. -/
inductive Selection.WritesOut (d : Document) : List Selection → List Selection → Prop
  | spread {fragment : Name} {directives : List Directive} {f : Fragment} {rest : List Selection}
      (found : d.fragment? fragment.text = some f) :
      WritesOut d (.spread fragment directives :: rest)
        (.inlineFragment (some f.condition) directives f.selections :: rest)
  | field {key : Option Name} {name : Name} {arguments : List (String × Literal)}
      {directives : List Directive} {selections written rest : List Selection}
      (below : WritesOut d selections written) :
      WritesOut d (.field key name arguments directives selections :: rest)
        (.field key name arguments directives written :: rest)
  | inlineFragment {condition : Option String} {directives : List Directive}
      {selections written rest : List Selection} (below : WritesOut d selections written) :
      WritesOut d (.inlineFragment condition directives selections :: rest)
        (.inlineFragment condition directives written :: rest)
  | later {s : Selection} {rest written : List Selection} (later : WritesOut d rest written) :
      WritesOut d (s :: rest) (s :: written)

/-- An operation with other selections. -/
def Operation.withSelections (operation : Operation) (selections : List Selection) : Operation :=
  { operation with selections := selections }

/-- A fragment with other selections. -/
def Fragment.withSelections (f : Fragment) (selections : List Selection) : Fragment :=
  { f with selections := selections }

/-- One spread of a document is written out, in an operation or in the body of a fragment. -/
inductive Document.WritesOut (d : Document) : Document → Prop
  | operation {before after : List Operation} {operation : Operation} {written : List Selection}
      (operations : d.operations = before ++ operation :: after)
      (body : Selection.WritesOut d operation.selections written) :
      WritesOut d { d with operations := before ++ operation.withSelections written :: after }
  | fragment {before after : List Fragment} {f : Fragment} {written : List Selection}
      (fragments : d.fragments = before ++ f :: after)
      (body : Selection.WritesOut d f.selections written) :
      WritesOut d { d with fragments := before ++ f.withSelections written :: after }

/-! ## Soundness stays -/

/-- A search finds the element that was replaced, or the same as before. -/
lemma find?_replace {α : Type} {p : α → Bool} {a b : α} (before after : List α)
    (h : p a = p b) :
    ((before ++ a :: after).find? p = some a ∧ (before ++ b :: after).find? p = some b) ∨
      (before ++ b :: after).find? p = (before ++ a :: after).find? p := by
  rw [List.find?_append, List.find?_append]
  cases before.find? p with
  | some c => exact .inr rfl
  | none =>
    by_cases hb : p b = true
    · have ha : p a = true := h.trans hb
      exact .inl ⟨by simp [ha], by simp [hb]⟩
    · have ha : ¬ p a = true := fun ha => hb (h.symm.trans ha)
      exact .inr (by simp [ha, hb])

namespace Document

variable {d d' : Document}

/-- Selections are the same as before, or one spread among them was written out. -/
def Rewritten (d : Document) (selections written : List Selection) : Prop :=
  written = selections ∨ Selection.WritesOut d selections written

lemma WritesOut.source_eq (h : d.WritesOut d') : d'.source = d.source := by
  cases h <;> rfl

/-- A fragment is found under its name as before, its body being rewritten. -/
lemma WritesOut.exists_fragment? (h : d.WritesOut d') {name : String} {f : Fragment}
    (hf : d.fragment? name = some f) :
    ∃ written, d'.fragment? name = some (f.withSelections written) ∧
      d.Rewritten f.selections written := by
  cases h with
  | operation operations body => exact ⟨f.selections, hf, .inl rfl⟩
  | @fragment before after g written fragments body =>
    rw [fragment?, fragments] at hf
    have hfind := find?_replace (p := fun f : Fragment => f.name == name) (a := g)
      (b := g.withSelections written) before after rfl
    rcases hfind with ⟨hg, hnew⟩ | hsame
    · cases hf.symm.trans hg
      exact ⟨written, hnew, .inr body⟩
    · exact ⟨f.selections, hsame.trans hf, .inl rfl⟩

lemma WritesOut.names_fragments (h : d.WritesOut d') :
    d'.fragments.map (·.name) = d.fragments.map (·.name) := by
  cases h with
  | operation operations body => rfl
  | fragment fragments body =>
    rw [fragments]
    simp [Fragment.withSelections]

/-- The spreads of rewritten selections are those from before, and those of a fragment that one of
them names. -/
theorem spreads_of_writesOut {selections written : List Selection}
    (h : Selection.WritesOut d selections written) :
    ∀ spread ∈ Selection.spreadsIn written, spread ∈ Selection.spreadsIn selections ∨
      ∃ outer ∈ Selection.spreadsIn selections, d.Spreads outer.text spread.text := by
  induction h with
  | @spread fragment directives f rest found =>
    intro spread hspread
    simp only [Selection.spreadsIn, Selection.spreads, List.mem_append, List.mem_cons,
      List.not_mem_nil, or_false] at hspread ⊢
    -- A spread in the text of the fragment is reached through the spread that it was written for.
    rcases hspread with hbody | hrest
    · exact .inr ⟨fragment, .inl rfl, f, found, spread, hbody, rfl⟩
    · exact .inl (.inr hrest)
  | field _ ih | inlineFragment _ ih =>
    intro spread hspread
    simp only [Selection.spreadsIn, Selection.spreads, List.mem_append] at hspread ⊢
    rcases hspread with hbelow | hrest
    · rcases ih spread hbelow with hold | ⟨outer, houter, hspreads⟩
      · exact .inl (.inl hold)
      · exact .inr ⟨outer, .inl houter, hspreads⟩
    · exact .inl (.inr hrest)
  | later _ ih =>
    intro spread hspread
    simp only [Selection.spreadsIn, List.mem_append] at hspread ⊢
    rcases hspread with hfirst | hrest
    · exact .inl (.inl hfirst)
    · rcases ih spread hrest with hold | ⟨outer, houter, hspreads⟩
      · exact .inl (.inr hold)
      · exact .inr ⟨outer, .inr houter, hspreads⟩

lemma Rewritten.forall_spreads {selections written : List Selection}
    (h : d.Rewritten selections written) {P : String → Prop}
    (hold : ∀ spread ∈ Selection.spreadsIn selections, P spread.text)
    (hnew : ∀ spread ∈ Selection.spreadsIn selections, ∀ name, d.Spreads spread.text name →
      P name) : ∀ spread ∈ Selection.spreadsIn written, P spread.text := by
  intro spread hspread
  rcases h with rfl | h
  · exact hold spread hspread
  · rcases spreads_of_writesOut h spread hspread with hmem | ⟨outer, houter, hspreads⟩
    · exact hold spread hmem
    · exact hnew outer houter _ hspreads

/-- What could be expanded to the end can be so afterwards.  The body of a fragment may have got the
spreads of a fragment that it spread, so the induction has to speak of two levels. -/
theorem Expandable.of_writesOut (h : d.WritesOut d') {name : String} (hname : d.Expandable name) :
    d'.Expandable name := by
  have hboth : d'.Expandable name ∧ ∀ other, d.Spreads name other → d'.Expandable other := by
    induction hname with
    | @intro name f found below ih =>
      obtain ⟨written, hfound, hrewritten⟩ := h.exists_fragment? found
      refine ⟨.intro hfound ?_, ?_⟩
      · exact hrewritten.forall_spreads (fun spread hspread => (ih spread hspread).1)
          fun spread hspread => (ih spread hspread).2
      · rintro other ⟨g, hg, spread, hspread, rfl⟩
        cases found.symm.trans hg
        exact (ih spread hspread).1
  exact hboth.1

lemma Rewritten.expandable {selections written : List Selection}
    (h : d.Rewritten selections written)
    (hold : ∀ spread ∈ Selection.spreadsIn selections, d.Expandable spread.text) :
    ∀ spread ∈ Selection.spreadsIn written, d.Expandable spread.text :=
  h.forall_spreads hold fun spread hspread _ => (hold spread hspread).of_spreads

/-- An operation is sound when a spread was written out, be it one of its own. -/
lemma Sound.of_writesOut (h : d.WritesOut d') {operation : Operation}
    (hsound : d.Sound operation) {written : List Selection}
    (hwritten : d.Rewritten operation.selections written) :
    d'.Sound (operation.withSelections written) := by
  refine .of_expandable (fun spread hspread => ?_) fun f hf => ?_
  · refine (hwritten.expandable (fun spread hmem => ?_) spread hspread).of_writesOut h
    exact hsound.expandable (hsound.known spread hmem)
  · have hname : f.name ∈ d.fragments.map (·.name) := by
      rw [← h.names_fragments]
      exact List.mem_map_of_mem hf
    obtain ⟨g, hg, hgf⟩ := List.mem_map.1 hname
    rw [← hgf]
    exact (hsound.expandable (isSome_fragment?_of_mem hg)).of_writesOut h

end Document

/-! ## The expansion stays -/

namespace Expansion

open Document

variable {x : Expansion} {d' : Document} {spread other : Spreading}

/-- Spreads of fragments that can be expanded to the end stand for what one step of expansion says,
given what spreads stand for. -/
def Solves (x : Expansion) (spread : Spreading) : Prop :=
  ∀ name : Name, x.document.Expandable name.text → ∀ parent,
    spread name parent = x.spreadOnce spread name parent

/-- What spreads stand for in the expansion with its guard is a solution. -/
lemma solves_expandSpread (x : Expansion) : x.Solves (x.expandSpread x.document.fragments) := by
  intro name hname parent
  have hsteps : ∀ {name : Name}, x.document.Expandable name.text → ∀ {n},
      x.document.fragments.length < n → ∀ parent,
      x.expandSpread x.document.fragments name parent =
        x.spreadTo (fun _ _ => .ok []) n name parent :=
    fun hname _ hn parent => expandSpread_eq_spreadTo (Pending.start _) _ hn hname
      (fun _ hother => absurd hother List.not_mem_nil) parent
  rw [hsteps hname (Nat.lt_succ_of_lt (Nat.lt_succ_self _)) parent, spreadTo, spreadOnce,
    spreadOnce]
  cases hname with
  | intro found below =>
    simp only [found]
    rw [expandAll_congr _ _ fun inner hinner parent =>
      (hsteps (below inner hinner) (Nat.lt_succ_self _) parent).symm]

/-- There is one solution only. -/
theorem Solves.unique (h : x.Solves spread) (hother : x.Solves other) {text : String}
    (htext : x.document.Expandable text) {name : Name} (hname : name.text = text)
    (parent : Option String) : spread name parent = other name parent := by
  induction htext generalizing name parent with
  | @intro text f found below ih =>
    subst hname
    have hexpandable : x.document.Expandable name.text := .intro found below
    rw [h name hexpandable, hother name hexpandable, spreadOnce, spreadOnce, found]
    simp only
    rw [expandAll_congr _ f.selections fun inner hinner parent => ih inner hinner rfl parent]

/-- Writing out a spread that stands for what one step of expansion says changes nothing. -/
lemma expandAll_writesOut {selections written : List Selection}
    (h : Selection.WritesOut x.document selections written)
    (hspread : ∀ name ∈ Selection.spreadsIn selections, ∀ parent,
      spread name parent = x.spreadOnce spread name parent) (parent : Option String) :
    x.expandAll spread parent written = x.expandAll spread parent selections := by
  induction h generalizing parent with
  | @spread fragment directives f rest found =>
    have hmem : fragment ∈ Selection.spreadsIn (.spread fragment directives :: rest) := by
      simp [Selection.spreadsIn, Selection.spreads]
    -- The inline fragment is the equation of the spread, behind the same directives.
    have hfirst : x.expandSelection spread parent
          (.inlineFragment (some f.condition) directives f.selections) =
        x.expandSelection spread parent (.spread fragment directives) := by
      rw [expandSelection, expandSelection, hspread fragment hmem parent, spreadOnce, found]
    rw [expandAll, expandAll, hfirst]
  | field _ ih | inlineFragment _ ih =>
    rw [Selection.spreadsIn, List.forall_mem_append, Selection.spreads] at hspread
    rw [expandAll, expandAll, expandSelection, expandSelection, ih hspread.1]
  | later _ ih =>
    rw [Selection.spreadsIn, List.forall_mem_append] at hspread
    rw [expandAll, expandAll, ih hspread.2]

lemma expandAll_rewritten {selections written : List Selection}
    (h : x.document.Rewritten selections written)
    (hspread : ∀ name ∈ Selection.spreadsIn selections, ∀ parent,
      spread name parent = x.spreadOnce spread name parent) (parent : Option String) :
    x.expandAll spread parent written = x.expandAll spread parent selections := by
  rcases h with rfl | h
  · rfl
  · exact expandAll_writesOut h hspread parent

/-- What spreads stand for after one was written out is a solution for the document as it was.  The
induction is on the document as it was: there the spreads of a body come before its fragment. -/
theorem solves_of_writesOut (h : x.document.WritesOut d') :
    x.Solves (expandSpread { x with document := d' } d'.fragments) := by
  have hsolves : ∀ {text : String}, x.document.Expandable text → ∀ {name : Name},
      name.text = text → ∀ parent, expandSpread { x with document := d' } d'.fragments name parent =
        x.spreadOnce (expandSpread { x with document := d' } d'.fragments) name parent := by
    intro text htext
    induction htext with
    | @intro text f found below ih =>
      rintro name rfl parent
      -- In the new document the fragment has the rewritten body, whose spreads may be those of a
      -- fragment below; only the old body is known to be expanded alike, so that is gone back to.
      obtain ⟨written, hfound, hrewritten⟩ := h.exists_fragment? found
      have hexpandable : d'.Expandable name.text := .of_writesOut h (.intro found below)
      have hbody : expandAll { x with document := d' }
            (expandSpread { x with document := d' } d'.fragments) (parent.or (some f.condition))
            written =
          x.expandAll (expandSpread { x with document := d' } d'.fragments)
            (parent.or (some f.condition)) f.selections := by
        rw [expandAll_withDocument h.source_eq]
        exact expandAll_rewritten hrewritten (fun inner hinner => ih inner hinner rfl) _
      refine (solves_expandSpread { x with document := d' } name hexpandable parent).trans ?_
      simp only [spreadOnce, found, hfound, Fragment.withSelections, hbody]
  exact fun name hname => hsolves hname rfl

end Expansion

namespace Document

variable {d d' : Document}

/-- An operation is chosen as before, its selections being rewritten. -/
lemma WritesOut.exists_selectOperation (h : d.WritesOut d') {name : Option String}
    {operation : Operation} (hselect : d.selectOperation name = .ok operation) :
    ∃ written, d'.selectOperation name = .ok (operation.withSelections written) ∧
      d.Rewritten operation.selections written := by
  cases h with
  | fragment fragments body => exact ⟨operation.selections, hselect, .inl rfl⟩
  | @operation before after chosen written operations body =>
    cases name with
    | some name =>
      rw [selectOperation, operations] at hselect
      have hfind := find?_replace (p := fun o : Operation => o.name == some name) (a := chosen)
        (b := chosen.withSelections written) before after rfl
      rw [selectOperation]
      simp only at hselect ⊢
      rcases hfind with ⟨hchosen, hnew⟩ | hsame
      · rw [hchosen] at hselect
        cases hselect
        exact ⟨written, by rw [hnew], .inr body⟩
      · exact ⟨operation.selections, by rw [hsame]; exact hselect, .inl rfl⟩
    | none =>
      rw [selectOperation, operations] at hselect
      -- Without a name there has to be one operation only, and it is the one that was rewritten.
      have honly : before = [] ∧ after = [] ∧ chosen = operation := by
        cases before with
        | nil =>
          cases after with
          | nil => exact ⟨rfl, rfl, by simpa using hselect⟩
          | cons _ _ => cases hselect
        | cons _ before => cases before <;> cases hselect
      obtain ⟨rfl, rfl, rfl⟩ := honly
      exact ⟨written, rfl, .inr body⟩

/-- An operation is expanded as before. -/
lemma Sound.expandOperation_of_writesOut {operation : Operation} (hsound : d.Sound operation)
    (h : d.WritesOut d') {written : List Selection}
    (hwritten : d.Rewritten operation.selections written) (types : TypeInfo) (rootType : String)
    (given : Arguments) :
    d'.expandOperation types rootType (operation.withSelections written) given =
      d.expandOperation types rootType operation given := by
  have hexpandable : ∀ name ∈ Selection.spreadsIn operation.selections, d.Expandable name.text :=
    fun name hname => hsound.expandable (hsound.known name hname)
  let x := d.expansion types operation given
  have hsolves : x.Solves (Expansion.expandSpread { x with document := d' } d'.fragments) :=
    Expansion.solves_of_writesOut h
  calc
    _ = x.expandAll (Expansion.expandSpread { x with document := d' } d'.fragments) (some rootType)
          written := Expansion.expandAll_withDocument h.source_eq _ _ _
    _ = x.expandAll (Expansion.expandSpread { x with document := d' } d'.fragments) (some rootType)
          operation.selections :=
        Expansion.expandAll_rewritten hwritten
          (fun name hname => hsolves name (hexpandable name hname)) _
    _ = x.expandAll (x.expandSpread d.fragments) (some rootType) operation.selections :=
        Expansion.expandAll_congr _ _ fun name hname parent =>
          hsolves.unique x.solves_expandSpread (hexpandable name hname) rfl parent

/-- What is chosen and accepted under a name, and what it expands to. -/
lemma expand_of_sound {name : Option String} {operation : Operation}
    (hselect : d.selectOperation name = .ok operation) (hsound : d.Sound operation)
    (types : TypeInfo) (rootType : String) (given : Arguments) :
    d.expand types rootType name given = d.expandOperation types rootType operation given := by
  simp only [expand, hselect, (checkFragments_eq_ok_iff d operation).2 hsound]

/-- However many spreads are written out, the operation chosen is accepted, and is expanded as
before. -/
theorem exists_sound_of_writesOut {name : Option String} {operation : Operation}
    (hselect : d.selectOperation name = .ok operation) (hsound : d.Sound operation)
    (h : Relation.ReflTransGen WritesOut d d') :
    ∃ selections, d'.selectOperation name = .ok (operation.withSelections selections) ∧
      d'.Sound (operation.withSelections selections) ∧
      ∀ types rootType given,
        d'.expandOperation types rootType (operation.withSelections selections) given =
          d.expandOperation types rootType operation given := by
  induction h with
  | refl => exact ⟨operation.selections, hselect, hsound, fun _ _ _ => rfl⟩
  | tail _ hstep ih =>
    obtain ⟨selections, hselected, hsound', heq⟩ := ih
    obtain ⟨written, hnew, hwritten⟩ := hstep.exists_selectOperation hselected
    refine ⟨written, hnew, hsound'.of_writesOut hstep hwritten, fun types rootType given => ?_⟩
    exact (hsound'.expandOperation_of_writesOut hstep hwritten types rootType given).trans
      (heq types rootType given)

end Document

/-! ## All spreads written out -/

namespace Selection

variable {d d' : Document}

/-- Writing out looks at the fragments of the document only. -/
lemma WritesOut.of_fragments_eq (hfragments : d'.fragments = d.fragments)
    {selections written : List Selection} (h : WritesOut d selections written) :
    WritesOut d' selections written := by
  induction h with
  | spread found => exact .spread (by rw [Document.fragment?, hfragments]; exact found)
  | field _ ih => exact .field ih
  | inlineFragment _ ih => exact .inlineFragment ih
  | later _ ih => exact .later ih

/-- Writing out spreads one after the other. -/
abbrev WritesOutAll (d : Document) : List Selection → List Selection → Prop :=
  Relation.ReflTransGen (WritesOut d)

mutual

/-- A selection is freed of its spreads when the fragments that they name can be. -/
lemma exists_writesOutAll_cons : (s : Selection) →
    (∀ name ∈ s.spreads, ∃ f written, d.fragment? name.text = some f ∧
      WritesOutAll d f.selections written ∧ spreadsIn written = []) →
    ∃ free : Selection, free.spreads = [] ∧ ∀ rest, WritesOutAll d (s :: rest) (free :: rest)
  | .field key name arguments directives selections, h => by
    rw [spreads] at h
    obtain ⟨written, hsteps, hfree⟩ := exists_writesOutAll selections h
    refine ⟨.field key name arguments directives written, by rw [spreads, hfree], fun rest => ?_⟩
    exact hsteps.lift (fun below => .field key name arguments directives below :: rest)
      fun _ _ hstep => hstep.field
  | .inlineFragment condition directives selections, h => by
    rw [spreads] at h
    obtain ⟨written, hsteps, hfree⟩ := exists_writesOutAll selections h
    refine ⟨.inlineFragment condition directives written, by rw [spreads, hfree], fun rest => ?_⟩
    exact hsteps.lift (fun below => .inlineFragment condition directives below :: rest)
      fun _ _ hstep => hstep.inlineFragment
  | .spread fragment directives, h => by
    obtain ⟨f, written, found, hsteps, hfree⟩ := h fragment (List.mem_singleton_self _)
    refine ⟨.inlineFragment (some f.condition) directives written, by rw [spreads, hfree],
      fun rest => .head (.spread found) ?_⟩
    exact hsteps.lift (fun below => .inlineFragment (some f.condition) directives below :: rest)
      fun _ _ hstep => hstep.inlineFragment

lemma exists_writesOutAll : (selections : List Selection) →
    (∀ name ∈ spreadsIn selections, ∃ f written, d.fragment? name.text = some f ∧
      WritesOutAll d f.selections written ∧ spreadsIn written = []) →
    ∃ written, WritesOutAll d selections written ∧ spreadsIn written = []
  | [], _ => ⟨[], .refl, rfl⟩
  | s :: rest, h => by
    rw [spreadsIn, List.forall_mem_append] at h
    obtain ⟨free, hfree, hfirst⟩ := exists_writesOutAll_cons s h.1
    obtain ⟨written, hrest, hwritten⟩ := exists_writesOutAll rest h.2
    refine ⟨free :: written, (hfirst rest).trans ?_, by rw [spreadsIn, hfree, hwritten]; rfl⟩
    exact hrest.lift (fun below => free :: below) fun _ _ hstep => hstep.later

end

end Selection

namespace Document

variable {d : Document}

/-- The body of a fragment that can be expanded to the end can be freed of its spreads. -/
lemma Expandable.exists_writesOutAll {name : String} (h : d.Expandable name) :
    ∃ f written, d.fragment? name = some f ∧
      Selection.WritesOutAll d f.selections written ∧ Selection.spreadsIn written = [] := by
  induction h with
  | intro found below ih =>
    obtain ⟨written, hsteps, hfree⟩ := Selection.exists_writesOutAll _ ih
    exact ⟨_, written, found, hsteps, hfree⟩

/-- The operation that is chosen stands in the document, and with other selections it is chosen as
before. -/
theorem exists_operations_eq {name : Option String} {operation : Operation}
    (h : d.selectOperation name = .ok operation) :
    ∃ before after, d.operations = before ++ operation :: after ∧ ∀ selections,
      selectOperation
          { d with operations := before ++ operation.withSelections selections :: after } name =
        .ok (operation.withSelections selections) := by
  cases name with
  | some name =>
    rw [selectOperation] at h
    split at h
    · next found =>
      cases h
      obtain ⟨hname, before, after, hoperations, hbefore⟩ := List.find?_eq_some_iff_append.1 found
      refine ⟨before, after, hoperations, fun selections => ?_⟩
      have hfound : (before ++ operation.withSelections selections :: after).find?
          (·.name == some name) = some (operation.withSelections selections) :=
        List.find?_eq_some_iff_append.2 ⟨hname, before, after, rfl, hbefore⟩
      rw [selectOperation, hfound]
    · cases h
  | none =>
    rw [selectOperation] at h
    split at h
    · next honly =>
      cases h
      exact ⟨[], [], honly, fun selections => rfl⟩
    · cases h
    · cases h

/-- The spreads of an operation are written out in its document. -/
lemma reflTransGen_writesOut {before after : List Operation} {operation : Operation}
    (hoperations : d.operations = before ++ operation :: after) {written : List Selection}
    (h : Selection.WritesOutAll d operation.selections written) :
    Relation.ReflTransGen WritesOut d
      { d with operations := before ++ operation.withSelections written :: after } := by
  induction h with
  | refl =>
    have hsame : { d with operations := before ++ operation :: after } = d := by rw [← hoperations]
    exact hsame ▸ .refl
  | @tail selections written _ hstep ih =>
    exact ih.tail (@WritesOut.operation _ before after (operation.withSelections selections) written
      rfl (hstep.of_fragments_eq (by rfl)))

/-- A sound operation without spreads is expanded as before when the fragments are dropped. -/
lemma expand_withoutFragments {name : Option String} {operation : Operation}
    (hselect : d.selectOperation name = .ok operation) (hsound : d.Sound operation)
    (hfree : Selection.spreadsIn operation.selections = []) (types : TypeInfo) (rootType : String)
    (given : Arguments) :
    expand { d with fragments := [] } types rootType name given =
      d.expand types rootType name given := by
  have hnone : ∀ spread ∈ Selection.spreadsIn operation.selections, False := by
    rw [hfree]
    exact fun _ => List.not_mem_nil
  have hbare : Sound { d with fragments := [] } operation :=
    .of_expandable (fun spread hspread => (hnone spread hspread).elim) fun _ hf => nomatch hf
  rw [expand_of_sound hselect hsound,
    expand_of_sound (d := { d with fragments := [] }) hselect hbare]
  let x := d.expansion types operation given
  have hbody : Expansion.expandAll { x with document := { d with fragments := [] } }
        (Expansion.expandSpread { x with document := { d with fragments := [] } } [])
        (some rootType) operation.selections =
      x.expandAll (Expansion.expandSpread { x with document := { d with fragments := [] } } [])
        (some rootType) operation.selections := Expansion.expandAll_withDocument (by rfl) _ _ _
  exact hbody.trans (Expansion.expandAll_congr _ _ fun spread hspread =>
    (hnone spread hspread).elim)

/-- **A spread means the same as its body written in place.**

When the chosen operation of a document is accepted, spreads may be written out wherever they stand,
in an operation or in the body of a fragment, one after the other: the operation stays accepted, and
for all types, root types and values of variables it expands to the same fields or fails with the
same error.  In this way the operation can be freed of all its spreads, and then the fragments can
be dropped from the document. -/
theorem expand_of_writesOut {name : Option String} {operation : Operation}
    (hselect : d.selectOperation name = .ok operation)
    (hcheck : d.checkFragments operation = .ok ()) :
    (∀ d', Relation.ReflTransGen WritesOut d d' →
      (∃ written, d'.selectOperation name = .ok (operation.withSelections written) ∧
        d'.checkFragments (operation.withSelections written) = .ok ()) ∧
      ∀ types rootType given,
        d'.expand types rootType name given = d.expand types rootType name given) ∧
    ∃ d' written, Relation.ReflTransGen WritesOut d d' ∧
      d'.selectOperation name = .ok (operation.withSelections written) ∧
      Selection.spreadsIn written = [] ∧
      ∀ types rootType given,
        expand { d' with fragments := [] } types rootType name given =
          d.expand types rootType name given := by
  have hsound := (checkFragments_eq_ok_iff d operation).1 hcheck
  have hsame : ∀ {d'}, Relation.ReflTransGen WritesOut d d' → ∀ types rootType given,
      d'.expand types rootType name given = d.expand types rootType name given := by
    intro d' h types rootType given
    obtain ⟨written, hselected, hsound', heq⟩ := exists_sound_of_writesOut hselect hsound h
    rw [expand_of_sound hselect hsound, expand_of_sound hselected hsound', heq]
  refine ⟨fun d' h => ⟨?_, hsame h⟩, ?_⟩
  · obtain ⟨written, hselected, hsound', -⟩ := exists_sound_of_writesOut hselect hsound h
    exact ⟨written, hselected, (checkFragments_eq_ok_iff d' _).2 hsound'⟩
  · obtain ⟨before, after, hoperations, hchosen⟩ := exists_operations_eq hselect
    -- A sound document has no cycles, so writing out comes to an end.
    obtain ⟨written, hwritten, hfree⟩ := Selection.exists_writesOutAll operation.selections
      fun spread hspread => (hsound.expandable (hsound.known spread hspread)).exists_writesOutAll
    have hsteps := reflTransGen_writesOut hoperations hwritten
    obtain ⟨written', hselected, hsound', -⟩ := exists_sound_of_writesOut hselect hsound hsteps
    cases (hchosen written).symm.trans hselected
    refine ⟨_, written, hsteps, hchosen written, hfree, fun types rootType given => ?_⟩
    rw [expand_withoutFragments (hchosen written) hsound' hfree]
    exact hsame hsteps types rootType given

/-- An operation that spreads the first fragment of the chain where a variable asks for it. -/
def detailOperation : Operation where
  name := some "Detail"
  variableDefinitions := [⟨"full", some (.bool true)⟩]
  selections := [.field none ⟨"post", 0⟩ [] [] [
    .spread ⟨"First", 0⟩ [⟨"include", [("if", .variable "full" 0)]⟩],
    .field none ⟨"title", 0⟩ [] [] []]]

/-- The chain of fragments with two operations that use it. -/
def detail : Document := { chain with operations := [chainOperation, detailOperation] }

/-- The same document with a spread of the operation written out, and then one in the body of the
first fragment. -/
def writtenDetail : Document where
  source := []
  operations := [chainOperation, detailOperation.withSelections [.field none ⟨"post", 0⟩ [] [] [
    .inlineFragment (some "Post") [⟨"include", [("if", .variable "full" 0)]⟩]
      [.field none ⟨"author", 0⟩ [] [] [.spread ⟨"Second", 0⟩ []]],
    .field none ⟨"title", 0⟩ [] [] []]]]
  fragments := [
    ⟨"First", "Post", [.field none ⟨"author", 0⟩ [] [] [
      .inlineFragment (some "Author") [] [.field none ⟨"name", 0⟩ [] [] []]]]⟩,
    ⟨"Second", "Author", [.field none ⟨"name", 0⟩ [] [] []]⟩,
    ⟨"Second", "Author", [.spread ⟨"Second", 0⟩ []]⟩]

/-- The operation of the chain is accepted, so it expands as before after both steps, and it can be
written out to the end. -/
theorem expand_of_writesOut_detail :
    detail.selectOperation (some "Detail") = .ok detailOperation ∧
      detail.checkFragments detailOperation = .ok () ∧
      Relation.ReflTransGen WritesOut detail writtenDetail ∧
      (∀ types rootType given, writtenDetail.expand types rootType (some "Detail") given =
        detail.expand types rootType (some "Detail") given) ∧
      ∃ (d' : Document) (written : List Selection), d'.selectOperation (some "Detail") =
          .ok (detailOperation.withSelections written) ∧
        Selection.spreadsIn written = [] ∧ ∀ types rootType given,
          expand { d' with fragments := [] } types rootType (some "Detail") given =
            detail.expand types rootType (some "Detail") given := by
  have hselect : detail.selectOperation (some "Detail") = .ok detailOperation := by cbv
  have hcheck : detail.checkFragments detailOperation = .ok () := by cbv
  have hoperation : WritesOut detail { writtenDetail with fragments := chain.fragments } :=
    @WritesOut.operation detail [chainOperation] [] detailOperation _ rfl
      (.field (.spread (f := chain.fragments[0]) rfl))
  have hfragment : WritesOut { writtenDetail with fragments := chain.fragments } writtenDetail :=
    @WritesOut.fragment { writtenDetail with fragments := chain.fragments } [] _ _ _ rfl
      (.field (.spread (f := chain.fragments[1]) rfl))
  have hsteps : Relation.ReflTransGen WritesOut detail writtenDetail :=
    (Relation.ReflTransGen.single hoperation).tail hfragment
  have hspec := expand_of_writesOut hselect hcheck
  obtain ⟨d', written, -, hselected, hfree, hsame⟩ := hspec.2
  exact ⟨hselect, hcheck, hsteps, (hspec.1 _ hsteps).2, d', written, hselected, hfree, hsame⟩

end Document

end GraphProjection
