import GraphProjection.Proofs.Sameness
import GraphProjection.Proofs.Selection
import Mathlib.Logic.Relation

/-!
# Selections that ask for the same

A selection can be written in many ways: its fields stand in any order, go by any alias, are
repeated, and what is asked below one of them may be spread over several of the same name and
arguments.  `FieldNode.Rewrite` is one such change, anywhere in the selection, and
`FieldNode.Rewriting` any number of them, back and forth.

What none of them changes is what is asked for: the paths of field names that lead somewhere, with
the arguments of the field at the end (`FieldNode.Asks`).  Main statement: `Rewriting.asksSame`,
selections that are rewritten into each other ask for the same.  Arguments are compared as maps,
which is why those of a field that is split off have to be keyed.
-/

namespace GraphProjection

namespace FieldNode

/-! ## What a selection asks for -/

/-- A selection asks, at the end of a path of field names, for a field with some arguments. -/
inductive Asks : List FieldNode → List String → Arguments → Prop
  | here {nodes : List FieldNode} {node : FieldNode} (h : node ∈ nodes) :
    Asks nodes [node.name] node.arguments
  | under {nodes : List FieldNode} {node : FieldNode} {path : List String} {arguments : Arguments}
    (h : node ∈ nodes) (hd : Asks node.children path arguments) :
    Asks nodes (node.name :: path) arguments

lemma Asks.mono {some more : List FieldNode} {path : List String} {arguments : Arguments}
    (h : Asks some path arguments) (hs : some ⊆ more) : Asks more path arguments := by
  cases h with
  | here hn => exact .here (hs hn)
  | under hn hd => exact .under (hs hn) hd

lemma asks_singleton_iff {nodes : List FieldNode} {name : String} {arguments : Arguments} :
    Asks nodes [name] arguments ↔
      ∃ node ∈ nodes, node.name = name ∧ node.arguments = arguments := by
  constructor
  · intro h
    cases h with
    | here hn => exact ⟨_, hn, rfl, rfl⟩
    | under _ hd => cases hd
  · rintro ⟨node, hn, rfl, rfl⟩
    exact .here hn

lemma asks_cons_cons_iff {nodes : List FieldNode} {name next : String} {path : List String}
    {arguments : Arguments} :
    Asks nodes (name :: next :: path) arguments ↔
      ∃ node ∈ nodes, node.name = name ∧ Asks node.children (next :: path) arguments := by
  constructor
  · intro h
    cases h with
    | under hn hd => exact ⟨_, hn, rfl, hd⟩
  · rintro ⟨node, hn, rfl, hd⟩
    exact .under hn hd

lemma asks_childrenOf_iff {group : List FieldNode} {path : List String}
    {arguments : Arguments} :
    Asks (childrenOf group) path arguments ↔ ∃ node ∈ group, Asks node.children path arguments := by
  constructor
  · intro h
    cases h with
    | here hchild =>
      obtain ⟨node, hn, hmem⟩ := mem_childrenOf.1 hchild
      exact ⟨node, hn, .here hmem⟩
    | under hchild hd =>
      obtain ⟨node, hn, hmem⟩ := mem_childrenOf.1 hchild
      exact ⟨node, hn, .under hmem hd⟩
  · rintro ⟨node, hn, h⟩
    exact h.mono fun child hchild => mem_childrenOf.2 ⟨node, hn, hchild⟩

lemma asks_cons_iff {node : FieldNode} {rest : List FieldNode} {path : List String}
    {arguments : Arguments} :
    Asks (node :: rest) path arguments ↔
      (path = [node.name] ∧ arguments = node.arguments) ∨
        (∃ tail, path = node.name :: tail ∧ Asks node.children tail arguments) ∨
          Asks rest path arguments := by
  constructor
  · intro h
    cases h with
    | here hn =>
      rcases List.mem_cons.1 hn with rfl | hn
      · exact .inl ⟨rfl, rfl⟩
      · exact .inr (.inr (.here hn))
    | under hn hd =>
      rcases List.mem_cons.1 hn with rfl | hn
      · exact .inr (.inl ⟨_, rfl, hd⟩)
      · exact .inr (.inr (.under hn hd))
  · rintro (⟨rfl, rfl⟩ | ⟨tail, rfl, hd⟩ | h)
    · exact .here List.mem_cons_self
    · exact .under List.mem_cons_self hd
    · exact h.mono (List.subset_cons_self node rest)

lemma asks_append_iff {front back : List FieldNode} {path : List String}
    {arguments : Arguments} :
    Asks (front ++ back) path arguments ↔ Asks front path arguments ∨ Asks back path arguments := by
  induction front with
  | nil =>
    have hnone : ¬ Asks [] path arguments := by
      intro h
      cases h with
      | here hn | under hn _ => cases hn
    rw [List.nil_append, or_iff_right hnone]
  | cons node front ih =>
    rw [List.cons_append, asks_cons_iff, asks_cons_iff, ih, or_assoc, or_assoc]

/-- No field is at the end of the empty path. -/
lemma not_asks_nil (nodes : List FieldNode) (arguments : Arguments) :
    ¬ Asks nodes [] arguments := nofun

/-- What the fields of a name ask for together is asked for behind that name. -/
theorem asks_childrenOf_requested_iff {nodes : List FieldNode} {name : String}
    {path : List String} {arguments : Arguments} :
    Asks (childrenOf (requested nodes name)) path arguments ↔
      path ≠ [] ∧ name ≠ typename ∧ Asks nodes (name :: path) arguments := by
  cases path with
  | nil => simp [not_asks_nil]
  | cons next path =>
    rw [asks_childrenOf_iff, asks_cons_cons_iff]
    simp only [mem_requested]
    constructor
    · rintro ⟨node, ⟨hn, rfl, htypename⟩, hd⟩
      exact ⟨List.cons_ne_nil _ _, htypename, node, hn, rfl, hd⟩
    · rintro ⟨-, htypename, node, hn, rfl, hd⟩
      exact ⟨node, ⟨hn, rfl, htypename⟩, hd⟩

/-! ## Asking for the same -/

/-- Whatever one selection asks for, another does too, with the same arguments. -/
def AsksNoMore (a b : List FieldNode) : Prop :=
  ∀ path arguments, Asks a path arguments →
    ∃ others, Asks b path others ∧ Value.sameArguments arguments others = true

/-- Two selections ask for the same. -/
def AsksSame (a b : List FieldNode) : Prop := AsksNoMore a b ∧ AsksNoMore b a

/-- The arguments of all fields of a selection are maps, at any depth. -/
def Keyed (nodes : List FieldNode) : Prop :=
  ∀ path arguments, Asks nodes path arguments → Value.Keyed (.object arguments)

/-- A field that is asked for occurs in the selection. -/
lemma Asks.exists_occurs {nodes : List FieldNode} {path : List String} {arguments : Arguments}
    (h : Asks nodes path arguments) : ∃ node, Occurs nodes node ∧ node.arguments = arguments := by
  induction h with
  | here hn => exact ⟨_, .here hn, rfl⟩
  | under hn _ ih =>
    obtain ⟨node, hnode, harguments⟩ := ih
    exact ⟨node, .under hn hnode, harguments⟩

lemma Keyed.of_everyIn {nodes : List FieldNode}
    (h : ∀ node ∈ everyIn nodes, (Entries.names node.arguments).Nodup ∧
      ∀ pair ∈ node.arguments, pair.2.isKey = true) : Keyed nodes := by
  intro path arguments hasks
  obtain ⟨node, hnode, rfl⟩ := hasks.exists_occurs
  obtain ⟨hnames, hkeys⟩ := h node hnode.mem_everyIn
  exact .of_keys hnames hkeys

section AsksSame

variable {a b c : List FieldNode}

lemma AsksNoMore.trans (ha : Keyed a) (h : AsksNoMore a b) (h' : AsksNoMore b c) :
    AsksNoMore a c := by
  intro path arguments hasks
  obtain ⟨others, hothers, hsame⟩ := h path arguments hasks
  obtain ⟨last, hlast, hsame'⟩ := h' path others hothers
  exact ⟨last, hlast, Value.sameArguments_trans (ha path arguments hasks) hsame hsame'⟩

lemma AsksSame.refl (ha : Keyed a) : AsksSame a a :=
  have hself : AsksNoMore a a := fun path arguments h =>
    ⟨arguments, h, Value.sameArguments_refl (ha path arguments h)⟩
  ⟨hself, hself⟩

lemma AsksSame.symm (h : AsksSame a b) : AsksSame b a := ⟨h.2, h.1⟩

lemma AsksSame.trans (ha : Keyed a) (hc : Keyed c) (h : AsksSame a b) (h' : AsksSame b c) :
    AsksSame a c :=
  ⟨h.1.trans ha h'.1, h'.2.trans hc h.2⟩

lemma AsksNoMore.requested (h : AsksNoMore a b) (name : String) :
    AsksNoMore (childrenOf (requested a name)) (childrenOf (requested b name)) := by
  intro path arguments hasks
  obtain ⟨hpath, htypename, hasks⟩ := asks_childrenOf_requested_iff.1 hasks
  obtain ⟨others, hothers, hsame⟩ := h _ arguments hasks
  exact ⟨others, asks_childrenOf_requested_iff.2 ⟨hpath, htypename, hothers⟩, hsame⟩

lemma AsksSame.requested (h : AsksSame a b) (name : String) :
    AsksSame (childrenOf (requested a name)) (childrenOf (requested b name)) :=
  ⟨h.1.requested name, h.2.requested name⟩

lemma Keyed.requested (h : Keyed a) (name : String) : Keyed (childrenOf (requested a name)) :=
  fun _ arguments hasks => h _ arguments (asks_childrenOf_requested_iff.1 hasks).2.2

lemma AsksSame.itemNodes (h : AsksSame a b) (envelope : Option (PageKind × String)) :
    AsksSame (Projector.itemNodes envelope a) (Projector.itemNodes envelope b) := by
  cases envelope with
  | none => exact h
  | some pair =>
    simp only [Projector.itemNodes, envelopeItems_eq]
    exact h.requested "data"

lemma Keyed.itemNodes (h : Keyed a) (envelope : Option (PageKind × String)) :
    Keyed (Projector.itemNodes envelope a) := by
  cases envelope with
  | none => exact h
  | some pair =>
    simp only [Projector.itemNodes, envelopeItems_eq]
    exact h.requested "data"

end AsksSame

/-! ## Rewriting -/

/-- One change to how a selection is written.  That the fields stand in any order makes it enough
to change the first one. -/
inductive Rewrite : List FieldNode → List FieldNode → Prop
  | permute {nodes more : List FieldNode} (h : nodes.Perm more) : Rewrite nodes more
  | rename (node : FieldNode) (rest : List FieldNode) (key : Option String) :
    Rewrite (node :: rest) ({ node with key := key } :: rest)
  | duplicate (node : FieldNode) (rest : List FieldNode) :
    Rewrite (node :: rest) (node :: node :: rest)
  | split (node : FieldNode) (rest first second : List FieldNode) (key : Option String)
    (arguments : Arguments) (location : Location) (children : node.children = first ++ second)
    (keyed : Value.Keyed (.object arguments))
    (same : Value.sameArguments node.arguments arguments = true) :
    Rewrite (node :: rest) ({ node with children := first } ::
      ⟨key, node.name, arguments, location, second⟩ :: rest)
  | inside (node : FieldNode) (rest : List FieldNode) {children : List FieldNode}
    (h : Rewrite node.children children) :
    Rewrite (node :: rest) ({ node with children := children } :: rest)

/-- Two selections are rewritten into each other, step by step in either direction. -/
def Rewriting : List FieldNode → List FieldNode → Prop := Relation.EqvGen Rewrite

/-- Whatever is asked for is still asked for after a step. -/
lemma Rewrite.asks {a b : List FieldNode} (h : Rewrite a b) {path : List String}
    {arguments : Arguments} (hasks : Asks a path arguments) : Asks b path arguments := by
  induction h generalizing path with
  | permute h => exact hasks.mono h.subset
  | rename =>
    rw [asks_cons_iff] at hasks ⊢
    exact hasks
  | duplicate node rest => exact hasks.mono (List.subset_cons_self node _)
  | split node rest first second key others location children _ _ =>
    rw [asks_cons_iff] at hasks
    rw [asks_cons_iff, asks_cons_iff]
    rcases hasks with h | ⟨tail, hpath, hd⟩ | hrest
    · exact .inl h
    · rw [children, asks_append_iff] at hd
      rcases hd with hfirst | hsecond
      · exact .inr (.inl ⟨tail, hpath, hfirst⟩)
      · exact .inr (.inr (.inr (.inl ⟨tail, hpath, hsecond⟩)))
    · exact .inr (.inr (.inr (.inr hrest)))
  | inside node rest _ ih =>
    rw [asks_cons_iff] at hasks ⊢
    rcases hasks with h | ⟨tail, hpath, hd⟩ | hrest
    · exact .inl h
    · exact .inr (.inl ⟨tail, hpath, ih hd⟩)
    · exact .inr (.inr hrest)

/-- What is asked for after a step was asked for before it, or the same was. -/
lemma Rewrite.exists_asks {a b : List FieldNode} (h : Rewrite a b) {path : List String}
    {arguments : Arguments} (hasks : Asks b path arguments) :
    Asks a path arguments ∨ (Value.Keyed (.object arguments) ∧
      ∃ others, Asks a path others ∧ Value.sameArguments others arguments = true) := by
  induction h generalizing path with
  | permute h => exact .inl (hasks.mono h.symm.subset)
  | rename =>
    rw [asks_cons_iff] at hasks
    exact .inl (asks_cons_iff.2 hasks)
  | duplicate node rest =>
    exact .inl (hasks.mono (List.cons_subset.2 ⟨List.mem_cons_self, List.Subset.refl _⟩))
  | split node rest first second key own location children keyed same =>
    have hbelow : ∀ tail, Asks first tail arguments ∨ Asks second tail arguments →
        Asks node.children tail arguments := by
      intro tail hd
      rw [children]
      exact asks_append_iff.2 hd
    rw [asks_cons_iff, asks_cons_iff] at hasks
    -- Only the second half of a field that is split asks for something else: its own arguments,
    -- which are the same as those of the field.
    rcases hasks with h | ⟨tail, hpath, hfirst⟩ | ⟨hpath, hown⟩ | ⟨tail, hpath, hsecond⟩ | hrest
    · exact .inl (asks_cons_iff.2 (.inl h))
    · exact .inl (asks_cons_iff.2 (.inr (.inl ⟨tail, hpath, hbelow tail (.inl hfirst)⟩)))
    · exact .inr ⟨hown ▸ keyed, node.arguments, asks_cons_iff.2 (.inl ⟨hpath, rfl⟩), hown ▸ same⟩
    · exact .inl (asks_cons_iff.2 (.inr (.inl ⟨tail, hpath, hbelow tail (.inr hsecond)⟩)))
    · exact .inl (asks_cons_iff.2 (.inr (.inr hrest)))
  | inside node rest _ ih =>
    rw [asks_cons_iff] at hasks
    rcases hasks with h | ⟨tail, hpath, hd⟩ | hrest
    · exact .inl (asks_cons_iff.2 (.inl h))
    · rcases ih hd with hbefore | ⟨keyed, others, hothers, hsame⟩
      · exact .inl (asks_cons_iff.2 (.inr (.inl ⟨tail, hpath, hbefore⟩)))
      · exact .inr ⟨keyed, others, asks_cons_iff.2 (.inr (.inl ⟨tail, hpath, hothers⟩)), hsame⟩
    · exact .inl (asks_cons_iff.2 (.inr (.inr hrest)))

lemma Rewrite.keyed_iff {a b : List FieldNode} (h : Rewrite a b) : Keyed a ↔ Keyed b := by
  constructor
  · intro ha path arguments hasks
    rcases h.exists_asks hasks with hbefore | ⟨hkeyed, -⟩
    · exact ha path arguments hbefore
    · exact hkeyed
  · intro hb path arguments hasks
    exact hb path arguments (h.asks hasks)

theorem Rewrite.asksSame {a b : List FieldNode} (h : Rewrite a b) (ha : Keyed a) :
    AsksSame a b := by
  refine ⟨fun path arguments hasks => ?_, fun path arguments hasks => ?_⟩
  · exact ⟨arguments, h.asks hasks, Value.sameArguments_refl (ha path arguments hasks)⟩
  · rcases h.exists_asks hasks with hbefore | ⟨hkeyed, others, hothers, hsame⟩
    · exact ⟨arguments, hbefore, Value.sameArguments_refl (ha path arguments hbefore)⟩
    · exact ⟨others, hothers, Value.sameArguments_symm (ha path others hothers) hkeyed hsame⟩

/-- **Selections that are rewritten into each other ask for the same.** -/
theorem Rewriting.asksSame {a b : List FieldNode} (h : Rewriting a b) :
    (Keyed a ↔ Keyed b) ∧ (Keyed a → AsksSame a b) := by
  induction h with
  | rel _ _ h => exact ⟨h.keyed_iff, h.asksSame⟩
  | refl _ => exact ⟨Iff.rfl, .refl⟩
  | symm _ _ _ ih => exact ⟨ih.1.symm, fun hkeyed => (ih.2 (ih.1.2 hkeyed)).symm⟩
  | trans _ _ _ _ _ ih ih' =>
    refine ⟨ih.1.trans ih'.1, fun hkeyed => ?_⟩
    have hmiddle := ih.1.1 hkeyed
    exact (ih.2 hkeyed).trans hkeyed (ih'.1.1 hmiddle) (ih'.2 hmiddle)

end FieldNode

end GraphProjection
