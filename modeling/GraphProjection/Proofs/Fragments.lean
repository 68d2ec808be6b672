import GraphProjection.Document.Fragments
import Mathlib.Data.Set.Finite.List
import Mathlib.Logic.Relation
import Mathlib.Order.WellFounded

/-!
# Fragments that can be spread

What is asked of the fragments of a document is said without the walk that checks it.  A selection
has spreads, wherever they stand in it (`Selection.spreads`); one fragment spreads another when the
other is named by a spread in its body; and an operation is sound when all spreads, its own and
those of every fragment, name a fragment, and no fragment reaches itself (`Document.Sound`).

The walk is then compared with that.  `Document.Expandable` is the invariant in between: a fragment
is expandable when it is there and all that it spreads are expandable, which is a tree and so has no
cycles.  Whatever the walk has walked to the end is expandable (`follows_of_followSpread`), and it
fails at nothing that is (`exists_followSpread`).  Main statement: **`checkFragments_eq_ok_iff`**.

The walk carries the fragments that are not on the way.  `followOnce` is one step of it that looks a
fragment up among all those of the document, and `followSpread_eq_followTo` says that so many steps
as there are fragments, and one more, are the whole walk, whatever may stand below them.
-/

namespace GraphProjection

/-! ## Spreads -/

mutual

/-- The spreads in a selection, at any depth and whatever directives and conditions say. -/
def Selection.spreads : Selection → List Name
  | .field _ _ _ _ selections => Selection.spreadsIn selections
  | .inlineFragment _ _ selections => Selection.spreadsIn selections
  | .spread fragment _ => [fragment]

/-- The spreads in selections. -/
def Selection.spreadsIn : List Selection → List Name
  | [] => []
  | s :: rest => s.spreads ++ Selection.spreadsIn rest

end

namespace Document

/-- The fragment of a name: the first one that has it. -/
def fragment? (d : Document) (name : String) : Option Fragment :=
  d.fragments.find? (·.name == name)

/-- One fragment spreads another: a spread in its body names it. -/
def Spreads (d : Document) (name other : String) : Prop :=
  ∃ f, d.fragment? name = some f ∧ ∃ spread ∈ Selection.spreadsIn f.selections,
    spread.text = other

/-- One fragment reaches another through one spread or several. -/
def Reaches (d : Document) : String → String → Prop := Relation.TransGen d.Spreads

/-- The spreads of an operation and of the fragments of a document are in order: each names a
fragment, and no fragment reaches itself. -/
structure Sound (d : Document) (operation : Operation) : Prop where
  known : ∀ spread ∈ Selection.spreadsIn operation.selections,
    (d.fragment? spread.text).isSome = true
  knownWithin : ∀ name f, d.fragment? name = some f →
    ∀ spread ∈ Selection.spreadsIn f.selections, (d.fragment? spread.text).isSome = true
  acyclic : ∀ name, ¬ d.Reaches name name

/-- A fragment can be expanded to the end: it is there, and so can those that it spreads. -/
inductive Expandable (d : Document) : String → Prop
  | intro {name : String} {f : Fragment} (found : d.fragment? name = some f)
      (below : ∀ spread ∈ Selection.spreadsIn f.selections, Expandable d spread.text) :
      Expandable d name

/-! ## Looking fragments up -/

lemma mem_of_fragment? {d : Document} {name : String} {f : Fragment}
    (h : d.fragment? name = some f) : f ∈ d.fragments ∧ f.name = name :=
  ⟨List.mem_of_find?_eq_some h, by simpa using List.find?_some h⟩

lemma isSome_fragment?_of_mem {d : Document} {f : Fragment} (h : f ∈ d.fragments) :
    (d.fragment? f.name).isSome = true :=
  List.find?_isSome.2 ⟨f, h, beq_self_eq_true _⟩

lemma find?_without (fragments : List Fragment) {name other : String} (h : other ≠ name) :
    (Fragment.without name fragments).find? (·.name == other) =
      fragments.find? (·.name == other) := by
  rw [Fragment.without, List.find?_filter]
  refine congrArg (List.find? · fragments) (funext fun f => ?_)
  by_cases hf : f.name = other
  · simp [hf, h]
  · simp [hf]

/-- Fragments among which every name that is not on the way is looked up as in the document. -/
def Pending (d : Document) (way : List String) (pending : List Fragment) : Prop :=
  ∀ name, name ∉ way → pending.find? (·.name == name) = d.fragment? name

lemma Pending.start (d : Document) : d.Pending [] d.fragments := fun _ _ => rfl

lemma Pending.without {d : Document} {way : List String} {pending : List Fragment}
    (h : d.Pending way pending) (name : String) :
    d.Pending (way ++ [name]) (Fragment.without name pending) := by
  intro other hother
  rw [List.mem_append, not_or, List.mem_singleton] at hother
  rw [find?_without pending hother.2]
  exact h other hother.1

lemma Pending.length_without_lt {d : Document} {way : List String} {pending : List Fragment}
    (h : d.Pending way pending) {name : String} (hway : name ∉ way) {f : Fragment}
    (hf : d.fragment? name = some f) :
    (Fragment.without name pending).length < pending.length :=
  Fragment.length_without_lt ((h name hway).trans hf)

/-! ## Soundness and expandability -/

lemma Expandable.isSome {d : Document} {name : String} (h : d.Expandable name) :
    (d.fragment? name).isSome = true := by
  cases h with
  | intro found _ => rw [found]; rfl

lemma Expandable.of_spreads {d : Document} {name other : String} (h : d.Expandable name)
    (hspreads : d.Spreads name other) : d.Expandable other := by
  obtain ⟨f, hf, spread, hspread, rfl⟩ := hspreads
  cases h with
  | intro found below =>
    rw [found] at hf
    cases hf
    exact below spread hspread

/-- A fragment that can be expanded to the end does not reach itself. -/
lemma Expandable.not_reaches_self {d : Document} {name : String} (h : d.Expandable name) :
    ¬ d.Reaches name name := by
  induction h with
  | @intro name f found below ih =>
    intro hcycle
    -- The cycle goes through a fragment spread here, which is on the cycle as well.
    obtain ⟨other, hspreads, hback⟩ := Relation.TransGen.head'_iff.1 hcycle
    obtain ⟨g, hg, spread, hspread, rfl⟩ := hspreads
    have hfg : f = g := Option.some.inj (found.symm.trans hg)
    subst hfg
    have hspreads : d.Spreads name spread.text := ⟨f, found, spread, hspread, rfl⟩
    exact ih spread hspread (Relation.TransGen.tail' hback hspreads)

/-- The names of the fragments of a document. -/
def Known (d : Document) : Type := { name : String // (d.fragment? name).isSome = true }

lemma finite_known (d : Document) : Finite d.Known := by
  refine Set.Finite.subset (List.finite_toSet (d.fragments.map (·.name))) fun name hname => ?_
  obtain ⟨f, hf⟩ := Option.isSome_iff_exists.1 hname
  obtain ⟨hmem, rfl⟩ := mem_of_fragment? hf
  exact List.mem_map_of_mem hmem

/-- Where no fragment reaches itself, going from one to another that it spreads comes to an end. -/
lemma wellFounded_reaches {d : Document} (h : ∀ name, ¬ d.Reaches name name) :
    WellFounded fun a b : d.Known => d.Reaches b.1 a.1 := by
  have : Finite d.Known := d.finite_known
  have : IsTrans d.Known fun a b => d.Reaches b.1 a.1 :=
    ⟨fun _ _ _ hab hbc => Relation.TransGen.trans hbc hab⟩
  have : Std.Irrefl fun a b : d.Known => d.Reaches b.1 a.1 := ⟨fun a => h a.1⟩
  exact Finite.wellFounded_of_trans_of_irrefl _

/-- In a sound document every fragment can be expanded to the end. -/
lemma Sound.expandable {d : Document} {operation : Operation} (h : d.Sound operation)
    {name : String} (hname : (d.fragment? name).isSome = true) : d.Expandable name := by
  refine (wellFounded_reaches h.acyclic).induction
    (C := fun a => d.Expandable a.1) ⟨name, hname⟩ ?_
  rintro ⟨name, hname⟩ ih
  obtain ⟨f, hf⟩ := Option.isSome_iff_exists.1 hname
  refine .intro hf fun spread hspread => ?_
  exact ih ⟨spread.text, h.knownWithin name f hf spread hspread⟩
    (Relation.TransGen.single ⟨f, hf, spread, hspread, rfl⟩)

/-- An operation is sound when its own spreads and all fragments can be expanded to the end. -/
lemma Sound.of_expandable {d : Document} {operation : Operation}
    (hoperation : ∀ spread ∈ Selection.spreadsIn operation.selections, d.Expandable spread.text)
    (hfragments : ∀ f ∈ d.fragments, d.Expandable f.name) : d.Sound operation where
  known spread hspread := (hoperation spread hspread).isSome
  knownWithin name f hf spread hspread := by
    obtain ⟨hmem, rfl⟩ := mem_of_fragment? hf
    exact ((hfragments f hmem).of_spreads ⟨f, hf, spread, hspread, rfl⟩).isSome
  acyclic name hcycle := by
    obtain ⟨other, ⟨f, hf, -⟩, -⟩ := Relation.TransGen.head'_iff.1 hcycle
    obtain ⟨hmem, rfl⟩ := mem_of_fragment? hf
    exact (hfragments f hmem).not_reaches_self hcycle

/-! ## The walk without its guard -/

/-- Follows the next spread of a walk. -/
abbrev Following := List String → Name → Walked → Except OperationError Walked

/-- One step of the walk: a spread is followed into the first fragment of its name, and the spreads
in there are followed by `follow`. -/
def followOnce (d : Document) (follow : Following) : Following := fun way spread walked =>
  if way.contains spread.text then
    .error (.fragmentCycle (way ++ [spread.text]) (d.locate spread.offset))
  else if walked.contains spread.text then .ok walked
  else
    match d.fragment? spread.text with
    | none => .error (.unknownFragment spread.text (d.locate spread.offset))
    | some f =>
      match walkAll (follow (way ++ [spread.text])) f.selections walked with
      | .ok walked => .ok (spread.text :: walked)
      | .error e => .error e

/-- So many steps of the walk, with `bottom` below them. -/
def followTo (d : Document) (bottom : Following) : Nat → Following
  | 0 => bottom
  | n + 1 => d.followOnce (d.followTo bottom n)

/-- The walk looks a fragment up as if no fragment were on the way. -/
lemma followSpread_eq {d : Document} {way : List String} {pending : List Fragment}
    (h : d.Pending way pending) (spread : Name) (walked : Walked) :
    followSpread d pending way spread walked =
      d.followOnce (followSpread d (Fragment.without spread.text pending)) way spread walked := by
  rw [followSpread, followOnce]
  split
  · rfl
  · next hway =>
    have hfind := h spread.text fun hmem => hway (List.contains_iff_mem.2 hmem)
    split
    · rfl
    · split
      · next hnone => rw [hfind.symm.trans hnone]
      · next f hf =>
        rewrite [hfind.symm.trans hf]
        rfl

/-- **The walk is finite.**  As soon as there are more steps than fragments that are not on the
way, nothing is left to be followed below them. -/
theorem followSpread_eq_followTo {d : Document} {way : List String} {pending : List Fragment}
    (h : d.Pending way pending) (bottom : Following) {n : Nat} (hn : pending.length < n) :
    followSpread d pending way = d.followTo bottom n way := by
  induction n generalizing way pending with
  | zero => exact absurd hn (Nat.not_lt_zero _)
  | succ n ih =>
    funext spread walked
    rw [followSpread_eq h, followTo, followOnce, followOnce]
    split
    · rfl
    · next hway =>
      split
      · rfl
      · split
        · rfl
        · next f hf =>
          have hlt := h.length_without_lt (fun hmem => hway (List.contains_iff_mem.2 hmem)) hf
          rw [ih (h.without spread.text) (by omega)]

/-! ## The walk follows the spreads in order -/

section Following

variable (follow : Name → Walked → Except OperationError Walked)

mutual

lemma walkSelection_eq : (s : Selection) → (walked : Walked) →
    walkSelection follow s walked =
      s.spreads.foldlM (fun walked spread => follow spread walked) walked
  | .field _ _ _ _ selections, walked => by
    rw [walkSelection, Selection.spreads]
    exact walkAll_eq selections walked
  | .inlineFragment _ _ selections, walked => by
    rw [walkSelection, Selection.spreads]
    exact walkAll_eq selections walked
  | .spread fragment _, walked => by
    rw [walkSelection, Selection.spreads, List.foldlM_cons]
    cases follow fragment walked <;> rfl

lemma walkAll_eq : (selections : List Selection) → (walked : Walked) →
    walkAll follow selections walked =
      (Selection.spreadsIn selections).foldlM (fun walked spread => follow spread walked) walked
  | [], _ => rfl
  | s :: rest, walked => by
    rw [walkAll, walkSelection_eq s walked, Selection.spreadsIn, List.foldlM_append]
    cases s.spreads.foldlM (fun walked spread => follow spread walked) walked with
    | error e => rfl
    | ok walked => exact walkAll_eq rest walked

end

end Following

/-! ## What was walked to the end can be expanded -/

/-- What following spreads has achieved: the names walked before are kept, and everything that was
walked, the spreads included, can be expanded to the end. -/
structure Follows (d : Document) (spreads : List Name) (walked done : Walked) : Prop where
  kept : walked ⊆ done
  walked : ∀ name ∈ done, d.Expandable name
  spreads : ∀ spread ∈ spreads, d.Expandable spread.text

lemma follows_of_foldlM {d : Document} {follow : Name → Walked → Except OperationError Walked}
    (hfollow : ∀ spread walked done, (∀ name ∈ walked, d.Expandable name) →
      follow spread walked = .ok done → d.Follows [spread] walked done)
    {spreads : List Name} {walked done : Walked} (hwalked : ∀ name ∈ walked, d.Expandable name)
    (h : spreads.foldlM (fun walked spread => follow spread walked) walked = .ok done) :
    d.Follows spreads walked done := by
  induction spreads generalizing walked with
  | nil =>
    cases h
    exact ⟨List.Subset.refl _, hwalked, fun _ hspread => absurd hspread List.not_mem_nil⟩
  | cons spread rest ih =>
    rw [List.foldlM_cons] at h
    cases hstep : follow spread walked with
    | error e =>
      rw [hstep] at h
      cases h
    | ok next =>
      rw [hstep] at h
      have hnext := hfollow spread walked next hwalked hstep
      have hrest := ih hnext.walked h
      refine ⟨List.Subset.trans hnext.kept hrest.kept, hrest.walked, ?_⟩
      exact List.forall_mem_cons.2 ⟨hnext.spreads spread (List.mem_singleton_self _), hrest.spreads⟩

lemma follows_of_walkAll {d : Document} {follow : Name → Walked → Except OperationError Walked}
    (hfollow : ∀ spread walked done, (∀ name ∈ walked, d.Expandable name) →
      follow spread walked = .ok done → d.Follows [spread] walked done)
    {selections : List Selection} {walked done : Walked}
    (hwalked : ∀ name ∈ walked, d.Expandable name)
    (h : walkAll follow selections walked = .ok done) :
    d.Follows (Selection.spreadsIn selections) walked done := by
  rw [walkAll_eq] at h
  exact follows_of_foldlM hfollow hwalked h

/-- A spread that was followed can be expanded to the end. -/
theorem follows_of_followSpread {d : Document} {way : List String} {pending : List Fragment}
    (hpending : d.Pending way pending) {spread : Name} {walked done : Walked}
    (hwalked : ∀ name ∈ walked, d.Expandable name)
    (h : followSpread d pending way spread walked = .ok done) :
    d.Follows [spread] walked done := by
  -- The induction is on the fragments that are still pending, one less below each spread that is
  -- followed.
  induction hlength : pending.length using Nat.strongRecOn
    generalizing way pending spread walked done with
  | _ n ih =>
  subst hlength
  rw [followSpread_eq hpending, followOnce] at h
  split at h
  · cases h
  · next hway =>
    split at h
    · next hmem =>
      cases h
      refine ⟨List.Subset.refl _, hwalked, fun other hother => ?_⟩
      cases List.mem_singleton.1 hother
      exact hwalked _ (List.contains_iff_mem.1 hmem)
    · split at h
      · cases h
      · next f hf =>
        split at h
        · next below hbelow =>
          cases h
          have hlt := hpending.length_without_lt
            (fun hmem => hway (List.contains_iff_mem.2 hmem)) hf
          have hfollows := follows_of_walkAll (fun other walked done hwalked hdone =>
            ih _ hlt (hpending.without spread.text) hwalked hdone rfl) hwalked hbelow
          have hspread : d.Expandable spread.text := .intro hf hfollows.spreads
          refine ⟨List.subset_cons_of_subset _ hfollows.kept,
            List.forall_mem_cons.2 ⟨hspread, hfollows.walked⟩, fun other hother => ?_⟩
          cases List.mem_singleton.1 hother
          exact hspread
        · cases h

/-- The spreads of selections that were walked can be expanded to the end. -/
lemma follows_of_walked {d : Document} {way : List String} {pending : List Fragment}
    (hpending : d.Pending way pending) {selections : List Selection} {walked done : Walked}
    (hwalked : ∀ name ∈ walked, d.Expandable name)
    (h : walkAll (followSpread d pending way) selections walked = .ok done) :
    d.Follows (Selection.spreadsIn selections) walked done :=
  follows_of_walkAll (fun _ _ _ hwalked hdone => follows_of_followSpread hpending hwalked hdone)
    hwalked h

/-! ## What can be expanded is walked to the end -/

/-- The names on the way to a spread are those of fragments that reach it. -/
def Leads (d : Document) (way : List String) (name : String) : Prop :=
  ∀ other ∈ way, d.Reaches other name

lemma Leads.below {d : Document} {way : List String} {name : String} (h : d.Leads way name)
    {f : Fragment} (hf : d.fragment? name = some f) {spread : Name}
    (hspread : spread ∈ Selection.spreadsIn f.selections) :
    d.Leads (way ++ [name]) spread.text := by
  have hspreads : d.Spreads name spread.text := ⟨f, hf, spread, hspread, rfl⟩
  intro other hother
  rcases List.mem_append.1 hother with hway | hlast
  · exact (h other hway).tail hspreads
  · rw [List.mem_singleton.1 hlast]
    exact .single hspreads

/-- A fragment that can be expanded to the end is not on the way to its own spread. -/
lemma Leads.not_mem {d : Document} {way : List String} {name : String} (h : d.Leads way name)
    (hname : d.Expandable name) : name ∉ way :=
  fun hmem => hname.not_reaches_self (h name hmem)

lemma exists_foldlM {follow : Name → Walked → Except OperationError Walked}
    {spreads : List Name} (h : ∀ spread ∈ spreads, ∀ walked, ∃ done,
      follow spread walked = .ok done) (walked : Walked) :
    ∃ done, spreads.foldlM (fun walked spread => follow spread walked) walked = .ok done := by
  induction spreads generalizing walked with
  | nil => exact ⟨walked, rfl⟩
  | cons spread rest ih =>
    obtain ⟨next, hnext⟩ := h spread List.mem_cons_self walked
    obtain ⟨done, hdone⟩ := ih (fun other hother => h other (List.mem_cons_of_mem _ hother)) next
    refine ⟨done, ?_⟩
    rw [List.foldlM_cons, hnext]
    exact hdone

lemma exists_walkAll {follow : Name → Walked → Except OperationError Walked}
    {selections : List Selection} (h : ∀ spread ∈ Selection.spreadsIn selections,
      ∀ walked, ∃ done, follow spread walked = .ok done) (walked : Walked) :
    ∃ done, walkAll follow selections walked = .ok done := by
  rw [walkAll_eq]
  exact exists_foldlM h walked

/-- A spread that can be expanded to the end is followed without an error. -/
theorem exists_followSpread {d : Document} {name : String} (h : d.Expandable name)
    {way : List String} {pending : List Fragment} (hpending : d.Pending way pending)
    (hway : d.Leads way name) {spread : Name} (hspread : spread.text = name) (walked : Walked) :
    ∃ done, followSpread d pending way spread walked = .ok done := by
  induction h generalizing way pending spread walked with
  | @intro name f found below ih =>
    subst hspread
    have hnot : way.contains spread.text = false := by
      simpa using hway.not_mem (.intro found below)
    rw [followSpread_eq hpending, followOnce, hnot, if_neg Bool.false_ne_true]
    by_cases hwalked : walked.contains spread.text = true
    · exact ⟨walked, if_pos hwalked⟩
    · rw [if_neg hwalked, found]
      have hbelow : ∃ done, walkAll (followSpread d (Fragment.without spread.text pending)
          (way ++ [spread.text])) f.selections walked = .ok done :=
        exists_walkAll (fun other hother walked => ih other hother (hpending.without spread.text)
          (hway.below found hother) rfl walked) walked
      obtain ⟨done, hdone⟩ := hbelow
      exact ⟨spread.text :: done, by simp only [hdone]⟩

/-! ## The fragments one after the other -/

/-- A fragment is the first of its name among those that follow fragments of other names. -/
lemma fragment?_of_append {d : Document} {done rest : List Fragment} {f : Fragment}
    (h : d.fragments = done ++ f :: rest) (hfirst : ∀ g ∈ done, g.name ≠ f.name) :
    d.fragment? f.name = some f := by
  rw [fragment?, h, List.find?_append]
  have hnone : done.find? (·.name == f.name) = none :=
    List.find?_eq_none.2 fun g hg => by simpa using hfirst g hg
  simp [hnone]

/-- The fragments can all be expanded once those behind the walked ones have been walked. -/
lemma expandable_of_walkFragments {d : Document} {front rest : List Fragment}
    {walked done : Walked} (hfragments : d.fragments = front ++ rest)
    (hfront : ∀ f ∈ front, f.name ∈ walked) (hwalked : ∀ name ∈ walked, d.Expandable name)
    (h : walkFragments d rest walked = .ok done) : ∀ f ∈ d.fragments, d.Expandable f.name := by
  -- The invariant: all fragments in front have been walked, and what has been walked can be
  -- expanded.
  induction rest generalizing front walked with
  | nil =>
    rw [List.append_nil] at hfragments
    intro f hf
    exact hwalked _ (hfront f (hfragments ▸ hf))
  | cons f rest ih =>
    have hnext : d.fragments = (front ++ [f]) ++ rest := by
      rw [hfragments, List.append_assoc, List.singleton_append]
    rw [walkFragments] at h
    split at h
    · next hmem =>
      have hlast : f.name ∈ walked := List.contains_iff_mem.1 hmem
      exact ih hnext (List.forall_mem_append.2 ⟨hfront, List.forall_mem_singleton.2 hlast⟩)
        hwalked h
    · next hmem =>
      split at h
      · next below hbelow =>
        have hf : d.fragment? f.name = some f := fragment?_of_append hfragments
          fun g hg hname => hmem (List.contains_iff_mem.2 (hname ▸ hfront g hg))
        have hfollows := follows_of_walked ((Pending.start d).without f.name) hwalked hbelow
        have hkept : ∀ g ∈ front, g.name ∈ f.name :: below :=
          fun g hg => List.mem_cons_of_mem _ (hfollows.kept (hfront g hg))
        exact ih hnext
          (List.forall_mem_append.2 ⟨hkept, List.forall_mem_singleton.2 List.mem_cons_self⟩)
          (List.forall_mem_cons.2 ⟨.intro hf hfollows.spreads, hfollows.walked⟩) h
      · cases h

/-- Where all fragments can be expanded to the end, they are walked without an error. -/
lemma exists_walkFragments {d : Document} (h : ∀ f ∈ d.fragments, d.Expandable f.name)
    {front rest : List Fragment} {walked : Walked} (hfragments : d.fragments = front ++ rest)
    (hfront : ∀ f ∈ front, f.name ∈ walked) (hwalked : ∀ name ∈ walked, d.Expandable name) :
    ∃ done, walkFragments d rest walked = .ok done := by
  induction rest generalizing front walked with
  | nil => exact ⟨walked, rfl⟩
  | cons f rest ih =>
    have hnext : d.fragments = (front ++ [f]) ++ rest := by
      rw [hfragments, List.append_assoc, List.singleton_append]
    rw [walkFragments]
    -- A fragment that was walked under another one is not walked again.
    by_cases hmem : f.name ∈ walked
    · rw [if_pos (List.contains_iff_mem.2 hmem)]
      exact ih hnext (List.forall_mem_append.2 ⟨hfront, List.forall_mem_singleton.2 hmem⟩)
        hwalked
    · rw [if_neg fun hc => hmem (List.contains_iff_mem.1 hc)]
      have hf : d.fragment? f.name = some f := fragment?_of_append hfragments
        fun g hg hname => hmem (hname ▸ hfront g hg)
      have hexpandable : d.Expandable f.name :=
        h f (hfragments ▸ List.mem_append_right _ List.mem_cons_self)
      have hbelow : ∃ below, walkAll (followSpread d (Fragment.without f.name d.fragments)
          [f.name]) f.selections walked = .ok below := by
        refine exists_walkAll (fun spread hspread walked => ?_) walked
        have hspreads : d.Spreads f.name spread.text := ⟨f, hf, spread, hspread, rfl⟩
        exact exists_followSpread (hexpandable.of_spreads hspreads)
          ((Pending.start d).without f.name)
          (List.forall_mem_singleton.2 (Relation.TransGen.single hspreads)) rfl walked
      obtain ⟨below, hbelow⟩ := hbelow
      have hfollows := follows_of_walked ((Pending.start d).without f.name) hwalked hbelow
      have hkept : ∀ g ∈ front, g.name ∈ f.name :: below :=
        fun g hg => List.mem_cons_of_mem _ (hfollows.kept (hfront g hg))
      rw [hbelow]
      exact ih hnext
        (List.forall_mem_append.2 ⟨hkept, List.forall_mem_singleton.2 List.mem_cons_self⟩)
        (List.forall_mem_cons.2 ⟨hexpandable, hfollows.walked⟩)

/-! ## The check -/

/-- **The check accepts exactly the sound documents.** -/
theorem checkFragments_eq_ok_iff (d : Document) (operation : Operation) :
    d.checkFragments operation = .ok () ↔ d.Sound operation := by
  have hnone : ∀ name ∈ ([] : Walked), d.Expandable name :=
    fun _ hname => absurd hname List.not_mem_nil
  have hfront : ∀ f ∈ ([] : List Fragment), ∀ walked : Walked, f.name ∈ walked :=
    fun _ hf => absurd hf List.not_mem_nil
  rw [checkFragments]
  constructor
  · intro h
    split at h
    · cases h
    · next walked hwalked =>
      split at h
      · cases h
      · next done hdone =>
        -- What was walked is expandable, and every fragment was walked, from the operation or by
        -- itself.
        have hfollows := follows_of_walked (Pending.start d) hnone hwalked
        refine .of_expandable hfollows.spreads ?_
        have hfragments : d.fragments = [] ++ d.fragments := rfl
        exact expandable_of_walkFragments hfragments (fun f hf => hfront f hf walked)
          hfollows.walked hdone
  · intro h
    have hall : ∀ f ∈ d.fragments, d.Expandable f.name :=
      fun f hf => h.expandable (isSome_fragment?_of_mem hf)
    have hbelow : ∃ walked, walkAll (followSpread d d.fragments []) operation.selections [] =
        .ok walked :=
      exists_walkAll (fun spread hspread walked =>
        exists_followSpread (h.expandable (h.known spread hspread)) (Pending.start d)
          (fun _ hother => absurd hother List.not_mem_nil) rfl walked) []
    obtain ⟨walked, hwalked⟩ := hbelow
    have hfollows := follows_of_walked (Pending.start d) hnone hwalked
    have hfragments : d.fragments = [] ++ d.fragments := rfl
    obtain ⟨done, hdone⟩ := exists_walkFragments hall hfragments
      (fun f hf => hfront f hf walked) hfollows.walked
    rw [hwalked]
    simp only [hdone]

end Document

end GraphProjection
