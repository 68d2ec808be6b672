import GraphProjection.Proofs.Fragments

/-!
# The faults of a document

The check of the fragments stops at the first fault, and it remembers which fragments it has walked
to the end and does not walk them again.  Here the walk is made without stopping and without
remembering: `Document.faults` follows a spread through everything below it and gives the faults in
the order in which they are met, and `Document.faultsFrom` does so for an operation and then for
fragments.

What the check remembers can be expanded to the end, and below such a spread there are no faults
(`faults_of_expandable`), so the check reports the first fault of that walk
(`reports_checkFragments`).  On the way down each fragment spreads the next one and none is there
twice (`Document.Leading`), which makes every fault of the walk a truthful one
(`truthful_of_mem_faults`).

A fragment may be defined twice.  A spread means the first definition, and the check takes the later
ones for walked; a walk through their bodies can meet another fault first
(`head?_faultsFrom_redefined`).

Main statement: **`truthful_of_checkFragments`**.
-/

namespace GraphProjection

namespace Document

/-! ## The walk that goes on -/

/-- The fragments that are not on the way. -/
def offWay (d : Document) (way : List String) : List Fragment :=
  d.fragments.filter fun f => !way.contains f.name

lemma length_offWay_lt {d : Document} {way : List String} {name : String} (hway : name ∉ way)
    {f : Fragment} (hf : d.fragment? name = some f) :
    (d.offWay (way ++ [name])).length < (d.offWay way).length := by
  obtain ⟨hmem, rfl⟩ := mem_of_fragment? hf
  have hsplit : d.offWay (way ++ [f.name]) = (d.offWay way).filter (·.name != f.name) := by
    rw [offWay, offWay, List.filter_filter]
    refine List.filter_congr fun g _ => ?_
    rw [List.contains_eq_mem, List.contains_eq_mem]
    by_cases hg : g.name = f.name <;> simp [hg]
  rw [hsplit, List.length_filter_lt_length_iff_exists]
  exact ⟨f, List.mem_filter.2 ⟨hmem, by simpa using hway⟩, by simp⟩

/-- The faults at a spread and below it, in the order in which they are met, given the names on the
way. -/
def faults (d : Document) (way : List String) (spread : Name) : List OperationError :=
  if hway : spread.text ∈ way then
    [.fragmentCycle (way ++ [spread.text]) (d.locate spread.offset)]
  else
    match hf : d.fragment? spread.text with
    | none => [.unknownFragment spread.text (d.locate spread.offset)]
    | some f =>
      have := length_offWay_lt hway hf
      (Selection.spreadsIn f.selections).flatMap fun next => d.faults (way ++ [spread.text]) next
termination_by (d.offWay way).length

/-- The faults at the spreads of selections and below them. -/
def faultsWithin (d : Document) (way : List String) (selections : List Selection) :
    List OperationError :=
  (Selection.spreadsIn selections).flatMap (d.faults way)

/-- The faults of a walk through an operation and then through fragments. -/
def faultsFrom (d : Document) (operation : Operation) (fragments : List Fragment) :
    List OperationError :=
  d.faultsWithin [] operation.selections ++
    fragments.flatMap fun f => d.faultsWithin [f.name] f.selections

/-- What spreads of the names of fragments mean, in order. -/
def meant (d : Document) (fragments : List Fragment) : List Fragment :=
  fragments.filterMap fun f => d.fragment? f.name

lemma meant_cons {d : Document} {f g : Fragment} (h : d.fragment? f.name = some g)
    (rest : List Fragment) : d.meant (f :: rest) = g :: d.meant rest := by
  simp only [meant, List.filterMap_cons, h]

lemma faults_of_mem {d : Document} {way : List String} {spread : Name} (h : spread.text ∈ way) :
    d.faults way spread = [.fragmentCycle (way ++ [spread.text]) (d.locate spread.offset)] := by
  rw [faults, dif_pos h]

lemma faults_of_missing {d : Document} {way : List String} {spread : Name}
    (h : spread.text ∉ way) (hf : d.fragment? spread.text = none) :
    d.faults way spread = [.unknownFragment spread.text (d.locate spread.offset)] := by
  rw [faults, dif_neg h]
  split
  · rfl
  · next f hsome => simp [hf] at hsome

lemma faults_of_found {d : Document} {way : List String} {spread : Name} {f : Fragment}
    (h : spread.text ∉ way) (hf : d.fragment? spread.text = some f) :
    d.faults way spread = d.faultsWithin (way ++ [spread.text]) f.selections := by
  rw [faults, dif_neg h]
  split
  · next hnone => simp [hf] at hnone
  · next g hg =>
    rw [hf] at hg
    cases hg
    rfl

/-- Where no name is defined twice, every fragment is the one that a spread of its name means. -/
lemma meant_eq_of_nodup {d : Document} (h : (d.fragments.map (·.name)).Nodup) :
    d.meant d.fragments = d.fragments := by
  have hfirst : ∀ f ∈ d.fragments, d.fragment? f.name = some f := by
    intro f hf
    obtain ⟨front, rest, hsplit⟩ := List.append_of_mem hf
    refine fragment?_of_append hsplit fun g hg hname => ?_
    rw [hsplit, List.map_append, List.nodup_append] at h
    exact h.2.2 g.name (List.mem_map_of_mem hg) f.name (by simp) hname
  rw [meant, List.filterMap_congr hfirst, List.filterMap_some]

/-! ## What the check remembers has no faults -/

/-- At and below a spread that can be expanded to the end there are no faults, by whatever way it
is met. -/
theorem faults_of_expandable {d : Document} {name : String} (h : d.Expandable name)
    {way : List String} (hway : d.Leads way name) {spread : Name} (hspread : spread.text = name) :
    d.faults way spread = [] := by
  induction h generalizing way spread with
  | @intro name f found below ih =>
    subst hspread
    rw [faults_of_found (hway.not_mem (.intro found below)) found, faultsWithin,
      List.flatMap_eq_nil_iff]
    exact fun next hnext => ih next hnext (hway.below found hnext) rfl

/-! ## The check reports the first fault -/

/-- What a walk ends in reports the first of some faults: it fails with that one, and if there are
none it does not fail. -/
def Reports {α : Type} (result : Except OperationError α) (faults : List OperationError) : Prop :=
  ∀ e, result = .error e ↔ faults.head? = some e

section Reports

variable {α β : Type} {result : Except OperationError α} {final : Except OperationError β}
  {found more : List OperationError}

lemma reports_ok (a : α) : Reports (.ok a) [] := by simp [Reports]

lemma reports_error (e : OperationError) : Reports (.error e : Except OperationError α) [e] := by
  simp [Reports]

lemma Reports.eq_nil (h : Reports result found) {a : α} (hok : result = .ok a) : found = [] := by
  rw [← List.head?_eq_none_iff, Option.eq_none_iff_forall_ne_some]
  intro e he
  rw [(h e).2 he] at hok
  cases hok

/-- Where one walk is made after another, the faults of the other come behind its own. -/
lemma Reports.andThen (h : Reports result found) (hfails : ∀ e, result = .error e →
      final = .error e) (hnext : ∀ a, result = .ok a → Reports final more) :
    Reports final (found ++ more) := by
  cases hresult : result with
  | error failed =>
    have hhead := (h failed).1 hresult
    intro e
    rw [hfails failed hresult, List.head?_append, hhead]
    simp
  | ok a =>
    rw [h.eq_nil hresult]
    exact hnext a hresult

end Reports

/-- Spreads that are followed one after the other report their first fault, where each one does and
what was walked can be expanded to the end all along. -/
theorem reports_foldlM {d : Document} {follow : Name → Walked → Except OperationError Walked}
    {faults : Name → List OperationError} {spreads : List Name}
    (hfollow : ∀ spread walked done, (∀ name ∈ walked, d.Expandable name) →
      follow spread walked = .ok done → d.Follows [spread] walked done)
    (hreports : ∀ spread ∈ spreads, ∀ walked, (∀ name ∈ walked, d.Expandable name) →
      Reports (follow spread walked) (faults spread))
    {walked : Walked} (hwalked : ∀ name ∈ walked, d.Expandable name) :
    Reports (spreads.foldlM (fun walked spread => follow spread walked) walked)
      (spreads.flatMap faults) := by
  induction spreads generalizing walked with
  | nil => exact reports_ok walked
  | cons spread rest ih =>
    rw [List.foldlM_cons, List.flatMap_cons]
    apply (hreports spread List.mem_cons_self walked hwalked).andThen
    · intro e he
      rw [he]
      rfl
    · intro done hdone
      rw [hdone]
      exact ih (fun next hnext => hreports next (List.mem_cons_of_mem _ hnext))
        (hfollow spread walked done hwalked hdone).walked

/-- Following a spread reports the first fault at it or below it. -/
lemma reports_followSpread {d : Document} {way : List String} {pending : List Fragment}
    (hpending : d.Pending way pending) {spread : Name} (hway : d.Leads way spread.text)
    {walked : Walked} (hwalked : ∀ name ∈ walked, d.Expandable name) :
    Reports (followSpread d pending way spread walked) (d.faults way spread) := by
  -- The induction is on the pending fragments, as for what is walked, and the cases are those of
  -- `faults`: back on the way, walked before, missing, or found.
  induction hlength : pending.length using Nat.strongRecOn
    generalizing way pending spread walked with
  | _ n ih =>
  subst hlength
  rw [followSpread_eq hpending, followOnce]
  by_cases hmem : spread.text ∈ way
  · rw [if_pos (List.contains_iff_mem.2 hmem), faults_of_mem hmem]
    exact reports_error _
  rw [if_neg fun hc => hmem (List.contains_iff_mem.1 hc)]
  by_cases hdone : spread.text ∈ walked
  · rw [if_pos (List.contains_iff_mem.2 hdone), faults_of_expandable (hwalked _ hdone) hway rfl]
    exact reports_ok _
  rw [if_neg fun hc => hdone (List.contains_iff_mem.1 hc)]
  cases hf : d.fragment? spread.text with
  | none =>
    rw [faults_of_missing hmem hf]
    exact reports_error _
  | some f =>
    have hnext := hpending.without spread.text
    have hlt := hpending.length_without_lt hmem hf
    have hbelow := reports_foldlM
      (fun next walked done hwalked => follows_of_followSpread hnext hwalked)
      (fun next hspread walked hwalked => ih _ hlt hnext (hway.below hf hspread) hwalked rfl)
      hwalked
    rw [← walkAll_eq] at hbelow
    rw [faults_of_found hmem hf, faultsWithin, ← List.append_nil (List.flatMap _ _)]
    apply hbelow.andThen
    · intro e he
      simp only [he]
    · intro done hdone
      simp only [hdone]
      exact reports_ok _

/-- Walking selections reports the first fault at their spreads or below them. -/
lemma reports_walkAll {d : Document} {way : List String} {pending : List Fragment}
    (hpending : d.Pending way pending) {selections : List Selection}
    (hway : ∀ spread ∈ Selection.spreadsIn selections, d.Leads way spread.text)
    {walked : Walked} (hwalked : ∀ name ∈ walked, d.Expandable name) :
    Reports (walkAll (followSpread d pending way) selections walked)
      (d.faultsWithin way selections) := by
  rw [walkAll_eq, faultsWithin]
  exact reports_foldlM (fun _ _ _ hwalked => follows_of_followSpread hpending hwalked)
    (fun spread hspread walked hwalked => reports_followSpread hpending (hway spread hspread)
      hwalked) hwalked

/-- The spreads in a fragment are led to by that fragment. -/
lemma leads_of_mem {d : Document} {name : String} {f : Fragment}
    (hf : d.fragment? name = some f) {spread : Name}
    (hspread : spread ∈ Selection.spreadsIn f.selections) : d.Leads [name] spread.text :=
  List.forall_mem_singleton.2 (.single ⟨f, hf, spread, hspread, rfl⟩)

/-- What is meant by a name that can be expanded to the end has no faults. -/
lemma faultsWithin_of_expandable {d : Document} {name : String} (h : d.Expandable name)
    {f : Fragment} (hf : d.fragment? name = some f) :
    d.faultsWithin [f.name] f.selections = [] := by
  obtain ⟨-, rfl⟩ := mem_of_fragment? hf
  refine List.flatMap_eq_nil_iff.2 fun spread hspread => ?_
  exact faults_of_expandable (h.of_spreads ⟨f, hf, spread, hspread, rfl⟩) (leads_of_mem hf hspread)
    rfl

/-- Walking the fragments behind the walked ones reports the first fault in what is meant by their
names. -/
theorem reports_walkFragments {d : Document} {front rest : List Fragment} {walked : Walked}
    (hfragments : d.fragments = front ++ rest) (hfront : ∀ f ∈ front, f.name ∈ walked)
    (hwalked : ∀ name ∈ walked, d.Expandable name) :
    Reports (walkFragments d rest walked)
      ((d.meant rest).flatMap fun f => d.faultsWithin [f.name] f.selections) := by
  induction rest generalizing front walked with
  | nil => exact reports_ok walked
  | cons f rest ih =>
    have hnext : d.fragments = (front ++ [f]) ++ rest := by
      rw [hfragments, List.append_assoc, List.singleton_append]
    rw [walkFragments]
    -- A walked fragment can be expanded, so there are no faults in it to report.
    by_cases hmem : f.name ∈ walked
    · obtain ⟨g, hg⟩ := Option.isSome_iff_exists.1 (hwalked _ hmem).isSome
      rw [if_pos (List.contains_iff_mem.2 hmem), meant_cons hg, List.flatMap_cons,
        faultsWithin_of_expandable (hwalked _ hmem) hg, List.nil_append]
      exact ih hnext (List.forall_mem_append.2 ⟨hfront, List.forall_mem_singleton.2 hmem⟩) hwalked
    · have hf : d.fragment? f.name = some f := fragment?_of_append hfragments
        fun g hg hname => hmem (hname ▸ hfront g hg)
      have hpending : d.Pending [f.name] (Fragment.without f.name d.fragments) :=
        (Pending.start d).without f.name
      have hbelow := reports_walkAll hpending (fun _ hspread => leads_of_mem hf hspread) hwalked
      rw [if_neg fun hc => hmem (List.contains_iff_mem.1 hc), meant_cons hf, List.flatMap_cons]
      apply hbelow.andThen
      · intro e he
        rw [he]
      · intro done hdone
        have hfollows := follows_of_walked hpending hwalked hdone
        have hkept : ∀ g ∈ front, g.name ∈ f.name :: done :=
          fun g hg => List.mem_cons_of_mem _ (hfollows.kept (hfront g hg))
        rw [hdone]
        exact ih hnext
          (List.forall_mem_append.2 ⟨hkept, List.forall_mem_singleton.2 List.mem_cons_self⟩)
          (List.forall_mem_cons.2 ⟨.intro hf hfollows.spreads, hfollows.walked⟩)

/-- **The check reports the first fault** of the walk through the operation and the fragments, each
as its name means it. -/
theorem reports_checkFragments (d : Document) (operation : Operation) :
    Reports (d.checkFragments operation) (d.faultsFrom operation (d.meant d.fragments)) := by
  have hnone : ∀ name ∈ ([] : Walked), d.Expandable name :=
    fun _ hname => absurd hname List.not_mem_nil
  have hstart : ∀ spread ∈ Selection.spreadsIn operation.selections, d.Leads [] spread.text :=
    fun _ _ _ hother => absurd hother List.not_mem_nil
  rw [checkFragments, faultsFrom]
  apply (reports_walkAll (Pending.start d) hstart hnone).andThen
  · intro e he
    rw [he]
  · intro walked hwalked
    have hfollows := follows_of_walked (Pending.start d) hnone hwalked
    have hrest := reports_walkFragments (List.nil_append d.fragments).symm
      (fun _ hf => absurd hf List.not_mem_nil) hfollows.walked
    rw [hwalked, ← List.append_nil (List.flatMap _ _)]
    apply hrest.andThen
    · intro e he
      simp only [he]
    · intro done hdone
      simp only [hdone]
      exact reports_ok ()

/-! ## Every fault is a truthful one -/

/-- The spread is written in the operation, or, where fragments are on the way, in the last of
them. -/
def Writes (d : Document) (operation : Operation) : Option String → Name → Prop
  | none, spread => spread ∈ Selection.spreadsIn operation.selections
  | some name, spread =>
    ∃ f, d.fragment? name = some f ∧ spread ∈ Selection.spreadsIn f.selections

/-- A way on which each fragment spreads the next one, down to a spread in the last, and none is
there twice. -/
structure Leading (d : Document) (operation : Operation) (way : List String) (spread : Name) :
    Prop where
  nodup : way.Nodup
  spreads : (way ++ [spread.text]).IsChain d.Spreads
  writes : d.Writes operation way.getLast? spread

/-- The names are those of a cycle that is closed at a location: each fragment spreads the next one,
they are different ones, and the last name is that of a fragment before it, named at the location
in the fragment right before. -/
structure IsCycle (d : Document) (cycle : List String) (location : Location) : Prop where
  two_le : 2 ≤ cycle.length
  spreads : cycle.IsChain d.Spreads
  nodup : cycle.dropLast.Nodup
  returns : ∃ name ∈ cycle.dropLast, cycle.getLast? = some name ∧ d.Reaches name name
  located : ∃ name f, cycle.dropLast.getLast? = some name ∧ d.fragment? name = some f ∧
    ∃ spread ∈ Selection.spreadsIn f.selections,
      cycle.getLast? = some spread.text ∧ location = d.locate spread.offset

/-- The name is that of no fragment, and is spread in the operation or in a fragment at the
location. -/
structure IsMissing (d : Document) (operation : Operation) (name : String) (location : Location) :
    Prop where
  undefined : ∀ f ∈ d.fragments, f.name ≠ name
  located : ∃ spread : Name, spread.text = name ∧ location = d.locate spread.offset ∧
    (spread ∈ Selection.spreadsIn operation.selections ∨
      ∃ f ∈ d.fragments, spread ∈ Selection.spreadsIn f.selections)

/-- What an error of the check says is so. -/
inductive Truthful (d : Document) (operation : Operation) : OperationError → Prop
  | cycle {cycle : List String} {location : Location} (h : d.IsCycle cycle location) :
      Truthful d operation (.fragmentCycle cycle location)
  | missing {name : String} {location : Location} (h : d.IsMissing operation name location) :
      Truthful d operation (.unknownFragment name location)

section Leading

variable {d : Document} {operation : Operation} {way : List String} {spread : Name}

lemma Leading.start (h : spread ∈ Selection.spreadsIn operation.selections) :
    d.Leading operation [] spread where
  nodup := List.nodup_nil
  spreads := List.isChain_singleton _
  writes := h

lemma Leading.within {f : Fragment} (hf : d.fragment? f.name = some f)
    (h : spread ∈ Selection.spreadsIn f.selections) : d.Leading operation [f.name] spread where
  nodup := List.nodup_singleton _
  spreads := List.isChain_pair.2 ⟨f, hf, spread, h, rfl⟩
  writes := ⟨f, hf, h⟩

lemma Leading.below (h : d.Leading operation way spread) (hway : spread.text ∉ way)
    {f : Fragment} (hf : d.fragment? spread.text = some f) {next : Name}
    (hnext : next ∈ Selection.spreadsIn f.selections) :
    d.Leading operation (way ++ [spread.text]) next where
  nodup := by
    rw [List.nodup_append]
    refine ⟨h.nodup, List.nodup_singleton _, fun name hname other hother => ?_⟩
    rw [List.mem_singleton.1 hother]
    exact fun heq => hway (heq ▸ hname)
  spreads := by
    refine List.isChain_append.2 ⟨h.spreads, List.isChain_singleton _, ?_⟩
    rw [List.getLast?_concat]
    rintro name ⟨⟩ other ⟨⟩
    exact ⟨f, hf, next, hnext, rfl⟩
  writes := by
    rw [List.getLast?_concat]
    exact ⟨f, hf, hnext⟩

/-- The fragments on the way reach what is spread at its end. -/
lemma Leading.leads (h : d.Leading operation way spread) : d.Leads way spread.text := by
  have hreaches : (way ++ [spread.text]).Pairwise (Relation.TransGen d.Spreads) :=
    List.isChain_iff_pairwise.1 (h.spreads.imp fun _ _ => .single)
  intro name hname
  exact (List.pairwise_append.1 hreaches).2.2 name hname spread.text (List.mem_singleton_self _)

/-- A name that is on the way to its own spread closes a cycle there. -/
lemma Leading.isCycle (h : d.Leading operation way spread) (hmem : spread.text ∈ way) :
    d.IsCycle (way ++ [spread.text]) (d.locate spread.offset) where
  two_le := by
    have hlength := List.length_pos_of_mem hmem
    rw [List.length_append, List.length_singleton]
    omega
  spreads := h.spreads
  nodup := by
    rw [List.dropLast_concat]
    exact h.nodup
  returns := by
    rw [List.dropLast_concat, List.getLast?_concat]
    exact ⟨spread.text, hmem, rfl, h.leads _ hmem⟩
  located := by
    rw [List.dropLast_concat, List.getLast?_concat]
    have hwrites := h.writes
    cases hlast : way.getLast? with
    | none =>
      rw [List.getLast?_eq_none_iff.1 hlast] at hmem
      exact absurd hmem List.not_mem_nil
    | some name =>
      rw [hlast] at hwrites
      obtain ⟨f, hf, hspread⟩ := hwrites
      exact ⟨name, f, rfl, hf, spread, hspread, rfl, rfl⟩

/-- A name that no fragment has is missing where it is spread. -/
lemma Leading.isMissing (h : d.Leading operation way spread)
    (hf : d.fragment? spread.text = none) :
    d.IsMissing operation spread.text (d.locate spread.offset) where
  undefined f hmem hname := by
    have hsome := isSome_fragment?_of_mem hmem
    rw [hname, hf] at hsome
    cases hsome
  located := by
    refine ⟨spread, rfl, rfl, ?_⟩
    have hwrites := h.writes
    cases hlast : way.getLast? with
    | none =>
      rw [hlast] at hwrites
      exact .inl hwrites
    | some name =>
      rw [hlast] at hwrites
      obtain ⟨f, hf, hspread⟩ := hwrites
      exact .inr ⟨f, (mem_of_fragment? hf).1, hspread⟩

/-- The faults at a spread and below it are truthful, where fragments that spread each other lead to
it. -/
theorem truthful_of_mem_faults (h : d.Leading operation way spread) {e : OperationError}
    (he : e ∈ d.faults way spread) : d.Truthful operation e := by
  induction way, spread using faults.induct d with
  | case1 way spread hmem =>
    rw [faults_of_mem hmem, List.mem_singleton] at he
    exact he ▸ .cycle (h.isCycle hmem)
  | case2 way spread hmem hf =>
    rw [faults_of_missing hmem hf, List.mem_singleton] at he
    exact he ▸ .missing (h.isMissing hf)
  | case3 way spread hmem f hf hlt ih =>
    rw [faults_of_found hmem hf, faultsWithin, List.mem_flatMap] at he
    obtain ⟨next, hnext, he⟩ := he
    exact ih next (h.below hmem hf hnext) he

end Leading

/-- **The check says the truth, and the first thing there is to say.**

Where it fails, it says that fragments spread each other in a cycle, or that a fragment is missing,
which is so and is seen at the location that it gives.  And of all faults of a walk that goes
through the operation and then through the fragments, in order and into every spread, this is the
first one, a fragment being the first definition of its name; where no name is defined twice, these
are the fragments of the document. -/
theorem truthful_of_checkFragments {d : Document} {operation : Operation} {e : OperationError}
    (h : d.checkFragments operation = .error e) :
    d.Truthful operation e ∧ (d.faultsFrom operation (d.meant d.fragments)).head? = some e ∧
      ((d.fragments.map (·.name)).Nodup →
        (d.faultsFrom operation d.fragments).head? = some e) := by
  have hfirst := (reports_checkFragments d operation e).1 h
  refine ⟨?_, hfirst, fun hnodup => meant_eq_of_nodup hnodup ▸ hfirst⟩
  have hmem := List.mem_of_head? hfirst
  rw [faultsFrom, List.mem_append, List.mem_flatMap] at hmem
  rcases hmem with hwithin | ⟨f, hf, hwithin⟩
  · obtain ⟨spread, hspread, he⟩ := List.mem_flatMap.1 hwithin
    exact truthful_of_mem_faults (.start hspread) he
  · obtain ⟨g, -, hg⟩ := List.mem_filterMap.1 hf
    have hname : d.fragment? f.name = some f := (mem_of_fragment? hg).2 ▸ hg
    obtain ⟨spread, hspread, he⟩ := List.mem_flatMap.1 hwithin
    exact truthful_of_mem_faults (.within hname hspread) he

/-- Two fragments that spread each other, one below an inline fragment and a field. -/
def knot : Document where
  source := ("{ ...A } fragment A on Post { ... { author { ...B } } } " ++
    "fragment B on Author { posts { ...A } }").toList
  operations := []
  fragments := [
    ⟨"A", "Post", [.inlineFragment none []
      [.field none ⟨"author", 36⟩ [] [] [.spread ⟨"B", 48⟩ []]]]⟩,
    ⟨"B", "Author", [.field none ⟨"posts", 79⟩ [] [] [.spread ⟨"A", 90⟩ []]]⟩]

/-- An operation that spreads the first of them. -/
def knotOperation : Operation where
  name := none
  variableDefinitions := []
  selections := [.spread ⟨"A", 5⟩ []]

/-- The knot is reported as a cycle through both fragments, which it is. -/
theorem truthful_of_checkFragments_knot :
    knot.checkFragments knotOperation = .error (.fragmentCycle ["A", "B", "A"] ⟨1, 91⟩) ∧
      knot.Truthful knotOperation (.fragmentCycle ["A", "B", "A"] ⟨1, 91⟩) ∧
      (knot.faultsFrom knotOperation knot.fragments).head? =
        some (.fragmentCycle ["A", "B", "A"] ⟨1, 91⟩) := by
  have herror : knot.checkFragments knotOperation =
      .error (.fragmentCycle ["A", "B", "A"] ⟨1, 91⟩) := by decide +kernel
  obtain ⟨htruthful, -, hfirst⟩ := truthful_of_checkFragments herror
  exact ⟨herror, htruthful, hfirst (by decide)⟩

/-- A document with two fragments of one name, of which the second one spreads a fragment that is
missing, and another fragment behind them that spreads another one that is missing. -/
def redefined : Document where
  source := ("{ id } fragment A on Post { id } fragment A on Post { ...Nope } " ++
    "fragment B on Post { ...Missing }").toList
  operations := []
  fragments := [
    ⟨"A", "Post", [.field none ⟨"id", 28⟩ [] [] []]⟩,
    ⟨"A", "Post", [.spread ⟨"Nope", 57⟩ []]⟩,
    ⟨"B", "Post", [.spread ⟨"Missing", 88⟩ []]⟩]

/-- An operation that spreads none of them. -/
def redefinedOperation : Operation where
  name := none
  variableDefinitions := []
  selections := [.field none ⟨"id", 2⟩ [] [] []]

/-- The check does not look into the second fragment of a name, and reports what is behind it. -/
theorem head?_faultsFrom_redefined :
    redefined.checkFragments redefinedOperation = .error (.unknownFragment "Missing" ⟨1, 89⟩) ∧
      (redefined.faultsFrom redefinedOperation redefined.fragments).head? =
        some (.unknownFragment "Nope" ⟨1, 58⟩) := by
  constructor <;> decide +kernel

end Document

end GraphProjection
