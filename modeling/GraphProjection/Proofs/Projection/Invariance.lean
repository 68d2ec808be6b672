import GraphProjection.Proofs.Projection.Serving
import GraphProjection.Proofs.Rewriting

/-!
# Projections of rewritten selections

A projection depends on what a selection asks for, not on how it is written.  Main statement:
`same_of_rewriting`, selections that are rewritten into each other have the same projection, or
none has one.  The same means equal in every respect but the order in which the arguments of a
relation are held (`Projection.Same`).

Two facts carry the proof.  Whether fields are in order can be said of what is asked for alone
(`checkFields_eq_ok_iff`): every name is declared, and two fields of a name have the same arguments.
And then it does not matter which field of a name comes first, as long as no rule or callback tells
apart arguments that are the same (`Projector.RespectsSame`), so each field of the type contributes
the same (`exists_same_contribution`), by induction on how deep the selection goes.
-/

namespace GraphProjection

open FieldNode

/-! ## Projections that are the same -/

/-- Two relations are the same but for the order of their arguments. -/
structure RelationEntry.Same (entry other : RelationEntry) : Prop where
  target : entry.target = other.target
  targetType : entry.targetType = other.targetType
  page : entry.page = other.page
  arguments : Value.sameArguments entry.arguments other.arguments = true
  constraint : entry.constraint = other.constraint

mutual

/-- Two projections are the same but for the order of the arguments of relations. -/
inductive Projection.Same : Projection → Projection → Prop
  | intro {table : Option String} {columns : List String} {expressions : List (String × String)}
    {relations others : List (RelationEntry × Projection)}
    (same : Projection.SameRelations relations others) :
    Projection.Same ⟨table, columns, expressions, relations⟩ ⟨table, columns, expressions, others⟩

/-- Two lists of relations are the same, one by one. -/
inductive Projection.SameRelations :
    List (RelationEntry × Projection) → List (RelationEntry × Projection) → Prop
  | nil : Projection.SameRelations [] []
  | cons {entry other : RelationEntry} {child below : Projection}
    {rest more : List (RelationEntry × Projection)} (head : entry.Same other)
    (inside : Projection.Same child below) (tail : Projection.SameRelations rest more) :
    Projection.SameRelations ((entry, child) :: rest) ((other, below) :: more)

end

namespace Projection

lemma SameRelations.append {relations others more rest : List (RelationEntry × Projection)}
    (h : SameRelations relations others) (h' : SameRelations more rest) :
    SameRelations (relations ++ more) (others ++ rest) := by
  induction relations generalizing others with
  | nil =>
    cases h
    exact h'
  | cons relation relations ih =>
    cases h with
    | cons hentry hchild hrest => exact .cons hentry hchild (ih hrest)

lemma same_iff {p q : Projection} :
    p.Same q ↔ p.table = q.table ∧ p.columns = q.columns ∧ p.expressions = q.expressions ∧
      SameRelations p.relations q.relations := by
  constructor
  · rintro ⟨hrelations⟩
    exact ⟨rfl, rfl, rfl, hrelations⟩
  · obtain ⟨table, columns, expressions, relations⟩ := p
    obtain ⟨table', columns', expressions', relations'⟩ := q
    rintro ⟨rfl, rfl, rfl, hrelations⟩
    exact .intro hrelations

lemma Same.of_relations_eq_nil {p : Projection} (h : p.relations = []) : p.Same p := by
  obtain ⟨table, columns, expressions, relations⟩ := p
  cases h
  exact .intro .nil

lemma Same.addColumn {p q : Projection} (h : p.Same q) (column : String) :
    (p.addColumn column).Same (q.addColumn column) := by
  obtain ⟨hrelations⟩ := h
  rw [Projection.addColumn, Projection.addColumn]
  split <;> exact .intro hrelations

lemma Same.addColumns {p q : Projection} (h : p.Same q) (columns : List String) :
    (p.addColumns columns).Same (q.addColumns columns) := by
  induction columns generalizing p q with
  | nil => exact h
  | cons column rest ih => exact ih (h.addColumn column)

lemma Same.addExpression {p q : Projection} (h : p.Same q) (expression outputAlias : String) :
    (p.addExpression expression outputAlias).Same (q.addExpression expression outputAlias) := by
  obtain ⟨hrelations⟩ := h
  rw [Projection.addExpression, Projection.addExpression]
  split <;> exact .intro hrelations

lemma Same.addExpressions {p q : Projection} (h : p.Same q)
    (expressions : List (String × String)) :
    (p.addExpressions expressions).Same (q.addExpressions expressions) := by
  induction expressions generalizing p q with
  | nil => exact h
  | cons e rest ih => exact ih (h.addExpression e.1 e.2)

end Projection

/-- Two contributions are the same but for the order of the arguments of relations. -/
structure Contribution.Same (c d : Contribution) : Prop where
  columns : c.columns = d.columns
  expressions : c.expressions = d.expressions
  relations : Projection.SameRelations c.relations d.relations

lemma Contribution.Same.none : Contribution.Same .none .none := ⟨rfl, rfl, .nil⟩

lemma Contribution.Same.behind {c d : Contribution} (h : c.Same d) (columns : List String) :
    (c.behind columns).Same (d.behind columns) :=
  ⟨congrArg (columns ++ ·) h.columns, h.expressions, h.relations⟩

namespace Projection

lemma Same.extend {p q : Projection} (h : p.Same q) {c d : Contribution} (h' : c.Same d) :
    (p.extend c).Same (q.extend d) := by
  have hadded := (h.addColumns c.columns).addExpressions c.expressions
  obtain ⟨htable, hcolumns, hexpressions, -⟩ := same_iff.1 hadded
  have hrelations : SameRelations (p.extend c).relations (q.extend d).relations := by
    rw [relations_extend, relations_extend]
    exact (same_iff.1 h).2.2.2.append h'.relations
  rw [h'.columns, h'.expressions] at htable hcolumns hexpressions
  rw [Projection.extend, Projection.extend, h'.columns, h'.expressions]
  exact same_iff.2 ⟨htable, hcolumns, hexpressions, hrelations⟩

lemma Same.foldl_extend {p q : Projection} (h : p.Same q) {parts others : List Contribution}
    (h' : List.Forall₂ Contribution.Same parts others) :
    (parts.foldl Projection.extend p).Same (others.foldl Projection.extend q) := by
  induction h' generalizing p q with
  | nil => exact h
  | cons hc _ ih => exact ih (h.extend hc)

end Projection

/-! ## Selections that are in order -/

namespace OutputType

lemma isSome_field?_of_checkFields {t : OutputType} {nodes earlier : List FieldNode}
    (h : t.checkFields nodes earlier = .ok ()) {node : FieldNode} (hnode : node ∈ nodes)
    (htypename : node.name ≠ typename) : (t.field? node.name).isSome = true := by
  induction nodes generalizing earlier with
  | nil => cases hnode
  | cons next rest ih =>
    rcases List.mem_cons.1 hnode with rfl | hmem
    · rw [checkFields, if_neg htypename] at h
      split at h
      · cases h
      · next hknown => simpa [Option.isSome_iff_ne_none] using hknown
    · obtain ⟨seen, hrest, -⟩ := checkFields_cons h
      exact ih hrest hmem

lemma checkFields_of_forall {t : OutputType} {nodes earlier : List FieldNode}
    (hknown : ∀ node ∈ nodes, node.name ≠ typename → (t.field? node.name).isSome = true)
    (hsame : ∀ first ∈ earlier ++ nodes, ∀ node ∈ nodes, node.name ≠ typename →
      first.name = node.name → Value.sameArguments first.arguments node.arguments = true) :
    t.checkFields nodes earlier = .ok () := by
  -- The fields that were checked are kept, so `hsame` is about them as well.
  induction nodes generalizing earlier with
  | nil => rfl
  | cons next rest ih =>
    have hknown' : ∀ node ∈ rest, node.name ≠ typename → (t.field? node.name).isSome = true :=
      fun node hnode => hknown node (List.mem_cons_of_mem _ hnode)
    have hskip : ∀ first ∈ earlier ++ rest, ∀ node ∈ rest, node.name ≠ typename →
        first.name = node.name → Value.sameArguments first.arguments node.arguments = true :=
      fun first hfirst node hnode => hsame first
        (((List.sublist_cons_self next rest).append_left earlier).subset hfirst) node
        (List.mem_cons_of_mem _ hnode)
    rw [checkFields]
    split
    · exact ih hknown' hskip
    · next htypename =>
      have hdeclared := hknown next List.mem_cons_self htypename
      rw [if_neg (by simpa [Option.isSome_iff_ne_none] using hdeclared)]
      split
      · next first hfirst =>
        have hmem : first ∈ earlier ++ next :: rest :=
          List.mem_append_left _ (List.mem_of_find?_eq_some hfirst)
        have hname : first.name = next.name := by simpa using List.find?_some hfirst
        rw [if_pos (hsame first hmem next List.mem_cons_self htypename hname)]
        exact ih hknown' hskip
      · refine ih hknown' fun first hfirst node hnode => ?_
        exact hsame first (by simpa using hfirst) node (List.mem_cons_of_mem _ hnode)

/-- Fields are in order when every name is declared and fields of one name have the same
arguments. -/
theorem checkFields_eq_ok_iff {t : OutputType} {nodes : List FieldNode} (hkeyed : Keyed nodes) :
    t.checkFields nodes [] = .ok () ↔
      ∀ name ≠ typename, ∀ arguments, Asks nodes [name] arguments →
        (t.field? name).isSome = true ∧ ∀ others, Asks nodes [name] others →
          Value.sameArguments arguments others = true := by
  constructor
  · intro h name htypename arguments hasks
    obtain ⟨node, hnode, rfl, rfl⟩ := asks_singleton_iff.1 hasks
    refine ⟨isSome_field?_of_checkFields h hnode htypename, fun others hothers => ?_⟩
    obtain ⟨other, hother, hname, rfl⟩ := asks_singleton_iff.1 hothers
    obtain ⟨first, rest, hfirst, hsame⟩ := exists_requested_of_checkFields h hnode htypename
    obtain ⟨first', rest', hfirst', hsame'⟩ :=
      exists_requested_of_checkFields h hother (hname ▸ htypename)
    obtain ⟨rfl, rfl⟩ := List.cons.inj ((hname ▸ hfirst').symm.trans hfirst)
    have hmem : first' ∈ nodes := requested_subset _ _ (hfirst ▸ List.mem_cons_self)
    have hfirstkeyed := hkeyed _ _ (Asks.here hmem)
    -- Both are compared with the first field of the name, hence with each other.
    have hback : Value.sameArguments node.arguments first'.arguments = true := by
      rcases hsame with rfl | hsame
      · exact Value.sameArguments_refl hfirstkeyed
      · exact Value.sameArguments_symm hfirstkeyed (hkeyed _ _ (.here hnode)) hsame
    rcases hsame' with rfl | hsame'
    · exact hback
    · exact Value.sameArguments_trans (hkeyed _ _ (.here hnode)) hback hsame'
  · intro h
    refine checkFields_of_forall (fun node hnode htypename => ?_) ?_
    · exact (h node.name htypename node.arguments (.here hnode)).1
    · intro first hfirst node hnode htypename hname
      have hasks : Asks nodes [node.name] first.arguments :=
        asks_singleton_iff.2 ⟨first, hfirst, hname, rfl⟩
      exact (h node.name htypename first.arguments hasks).2 node.arguments (.here hnode)

end OutputType

theorem PageKind.checkFields_eq_ok_iff {kind : PageKind} {type : String}
    {nodes : List FieldNode} :
    kind.checkFields type nodes = .ok () ↔
      ∀ node ∈ nodes, node.name = typename ∨ kind.hasField node.name = true := by
  induction nodes with
  | nil => simp [PageKind.checkFields]
  | cons node rest ih =>
    rw [PageKind.checkFields, List.forall_mem_cons]
    split
    · next h => rw [ih, and_iff_right h]
    · next h => exact ⟨fun herror => (nomatch herror), fun hall => absurd hall.1 h⟩

/-- Where every left side has a partner that is related to its right side, so have all of them. -/
lemma exists_forall₂_of_mem {α β γ : Type} {R : α → β → Prop} {S : α → γ → Prop}
    {T : β → γ → Prop} {as : List α} {bs : List β} (h : List.Forall₂ R as bs)
    (partner : ∀ a ∈ as, ∀ b, R a b → ∃ c, S a c ∧ T b c) :
    ∃ cs, List.Forall₂ S as cs ∧ List.Forall₂ T bs cs := by
  induction h with
  | nil => exact ⟨[], .nil, .nil⟩
  | cons hab _ ih =>
    obtain ⟨c, hac, hbc⟩ := partner _ List.mem_cons_self _ hab
    obtain ⟨cs, has, hbs⟩ := ih fun a ha => partner a (List.mem_cons_of_mem _ ha)
    exact ⟨c :: cs, .cons hac has, .cons hbc hbs⟩

namespace Projector

/-! ## What is assumed of rules and callbacks -/

/-- A privacy rule does not tell apart arguments that are the same map. -/
def RuleRespectsSame (x : Projector) (rule : Privacy) : Prop :=
  ∀ a b : Arguments, Value.Keyed (.object a) → Value.Keyed (.object b) →
    Value.sameArguments a b = true → rule a x.services = rule b x.services

/-- The callback of an expression does not tell apart what is bound of arguments that are the same
map. -/
def CallbackRespectsSame (x : Projector) (parameters : List Parameter)
    (build : Bindings → String) : Prop :=
  ∀ a b : Arguments, Value.Keyed (.object a) → Value.Keyed (.object b) →
    Value.sameArguments a b = true → ∀ bound others, bind parameters a x.services = .ok bound →
      bind parameters b x.services = .ok others → build bound = build others

/-- No rule and no callback of a described type tells apart arguments that are the same map. -/
structure RespectsSame (x : Projector) : Prop where
  privacy : ∀ name t, x.registry.describe name = .ok (some t) → ∀ f ∈ t.fields, ∀ rule,
    f.privacy = some rule → x.RuleRespectsSame rule
  expressions : ∀ name t, x.registry.describe name = .ok (some t) → ∀ f ∈ t.fields,
    ∀ outputAlias parameters build, f.kind = .computed outputAlias (.callback parameters build) →
      x.CallbackRespectsSame parameters build

/-- It is enough to look at the rules and callbacks that were declared. -/
lemma RespectsSame.of_declared {x : Projector}
    (hrules : ∀ type ∈ x.registry.types, ∀ d ∈ type.fields, ∀ rule, d.privacy = some rule →
      x.RuleRespectsSame rule)
    (hcallbacks : ∀ type ∈ x.registry.types, ∀ d ∈ type.fields, ∀ parameters build,
      d.expression = some (.callback parameters build) →
        x.CallbackRespectsSame parameters build) : x.RespectsSame where
  privacy name t ht f hf rule hrule := by
    obtain ⟨type, htype, d, hd, hresolve⟩ := Registry.exists_declaration_of_describe ht hf
    exact hrules type htype d hd rule ((FieldDeclaration.resolve_rules hresolve).1 ▸ hrule)
  expressions name t ht f hf outputAlias parameters build hkind := by
    obtain ⟨type, htype, d, hd, hresolve⟩ := Registry.exists_declaration_of_describe ht hf
    exact hcallbacks type htype d hd parameters build
      ((FieldDeclaration.resolve_rules hresolve).2 outputAlias _ hkind)

section RespectsSame

variable {x : Projector} {name : String} {t : OutputType} {f : FieldDescriptor} {a b : Arguments}

lemma RespectsSame.allows_eq (hx : x.RespectsSame)
    (ht : x.registry.describe name = .ok (some t)) (hf : f ∈ t.fields)
    (ha : Value.Keyed (.object a)) (hb : Value.Keyed (.object b))
    (h : Value.sameArguments a b = true) : f.allows a x.services = f.allows b x.services := by
  rw [FieldDescriptor.allows, FieldDescriptor.allows]
  cases hrule : f.privacy with
  | none => rfl
  | some rule => exact hx.privacy name t ht f hf rule hrule a b ha hb h

lemma RespectsSame.expressionText?_eq (hx : x.RespectsSame)
    (ht : x.registry.describe name = .ok (some t)) (hf : f ∈ t.fields) {outputAlias : String}
    {e : Expression} (hkind : f.kind = .computed outputAlias e)
    (ha : Value.Keyed (.object a)) (hb : Value.Keyed (.object b))
    (h : Value.sameArguments a b = true) : x.expressionText? e a = x.expressionText? e b := by
  cases e with
  | raw sql => rfl
  | callback parameters build =>
    have hbinds := exists_bind_of_sameArguments x.services parameters ha.nodup_names h
    rw [expressionText?, expressionText?]
    cases hbound : bind parameters a x.services with
    | ok bound =>
      obtain ⟨others, hothers⟩ := hbinds.1 ⟨bound, hbound⟩
      rw [hothers]
      exact congrArg some (hx.expressions name t ht f hf outputAlias parameters build hkind a b
        ha hb h bound others hbound hothers)
    | error e =>
      cases hothers : bind parameters b x.services with
      | ok others =>
        obtain ⟨bound, hok⟩ := hbinds.2 ⟨others, hothers⟩
        rw [hok] at hbound
        cases hbound
      | error e' => rfl

end RespectsSame

/-! ## Selections that ask for the same -/

section AsksSame

variable {a b : List FieldNode}

lemma checkFields_congr (ha : Keyed a) (hb : Keyed b) (h : AsksSame a b) (t : OutputType)
    (hcheck : t.checkFields a [] = .ok ()) : t.checkFields b [] = .ok () := by
  rw [OutputType.checkFields_eq_ok_iff ha] at hcheck
  rw [OutputType.checkFields_eq_ok_iff hb]
  intro name htypename arguments hasks
  obtain ⟨own, hown, hsame⟩ := h.2 [name] arguments hasks
  obtain ⟨hknown, hall⟩ := hcheck name htypename own hown
  refine ⟨hknown, fun others hothers => ?_⟩
  obtain ⟨own', hown', hsame'⟩ := h.2 [name] others hothers
  have hkeyed := hb _ _ hasks
  have hmiddle := Value.sameArguments_trans hkeyed hsame (hall own' hown')
  exact Value.sameArguments_trans hkeyed hmiddle
    (Value.sameArguments_symm (hb _ _ hothers) (ha _ _ hown') hsame')

lemma checkEnvelope_congr (h : AsksSame a b) (envelope : Option (PageKind × String))
    (type : String) (hcheck : checkEnvelope envelope type a = .ok ()) :
    checkEnvelope envelope type b = .ok () := by
  cases envelope with
  | none => rfl
  | some pair =>
    rw [checkEnvelope, PageKind.checkFields_eq_ok_iff] at hcheck ⊢
    intro node hnode
    obtain ⟨others, hothers, -⟩ := h.2 _ _ (.here hnode)
    obtain ⟨other, hother, hname, -⟩ := asks_singleton_iff.1 hothers
    exact hname ▸ hcheck other hother

lemma requested_eq_nil_congr (h : AsksSame a b) {name : String} (hnone : requested a name = []) :
    requested b name = [] := by
  rw [List.eq_nil_iff_forall_not_mem] at hnone ⊢
  intro node hnode
  obtain ⟨hmem, hname, htypename⟩ := mem_requested.1 hnode
  obtain ⟨others, hothers, -⟩ := h.2 _ _ (.here hmem)
  obtain ⟨other, hother, hsame, -⟩ := asks_singleton_iff.1 hothers
  exact hnone other (mem_requested.2 ⟨hother, hsame.trans hname, hsame ▸ htypename⟩)

/-- Of selections that ask for the same and are in order, the first fields of a name have the same
arguments. -/
theorem sameArguments_of_requested {t : OutputType} (ha : Keyed a) (hb : Keyed b)
    (h : AsksSame a b) (hcheck : t.checkFields a [] = .ok ()) {name : String}
    {first first' : FieldNode} {rest rest' : List FieldNode}
    (hrequested : requested a name = first :: rest)
    (hrequested' : requested b name = first' :: rest') :
    Value.sameArguments first.arguments first'.arguments = true := by
  have hfirst : first ∈ requested a name := hrequested ▸ List.mem_cons_self
  have hfirst' : first' ∈ requested b name := hrequested' ▸ List.mem_cons_self
  obtain ⟨hmem, rfl, htypename⟩ := mem_requested.1 hfirst
  obtain ⟨hmem', hname, -⟩ := mem_requested.1 hfirst'
  obtain ⟨own, hown, hsame⟩ := h.2 _ _ (.here hmem')
  rw [hname] at hown
  have hall := (OutputType.checkFields_eq_ok_iff ha).1 hcheck first.name htypename
    first.arguments (.here hmem)
  exact Value.sameArguments_trans (ha _ _ (.here hmem)) (hall.2 own hown)
    (Value.sameArguments_symm (hb _ _ (.here hmem')) (ha _ _ hown) hsame)

end AsksSame

/-! ## Contributions that are the same -/

lemma same_forcedContribution {x : Projector} {t : OutputType} {f : FieldDescriptor}
    {c : Contribution} (h : x.forcedContribution t f = .ok c) : c.Same c := by
  obtain rfl | ⟨r, target, -, -, rfl⟩ := forcedContribution_spec h
  · exact .none
  · refine ⟨rfl, rfl, .cons ⟨rfl, rfl, rfl, rfl, rfl⟩ (.of_relations_eq_nil ?_) .nil⟩
    simp [forcedProjection, Projection.ofTable]

/-- Given that the projections of what is selected further down are the same, so is what a
relation contributes. -/
theorem exists_same_relationContribution {x : Projector} {t : OutputType} {f : FieldDescriptor}
    {r : RelationDescriptor} {arguments others : Arguments} {a b : List FieldNode}
    {c : Contribution} (h : AsksSame a b)
    (hsame : Value.sameArguments arguments others = true)
    (below : ∀ target child,
      x.registry.describe (itemType (x.registry.envelope? f.type.namedType) f.type.namedType) =
        .ok (some target) →
      x.projectType target (itemNodes (x.registry.envelope? f.type.namedType) a) = .ok child →
        ∃ other, x.projectType target (itemNodes (x.registry.envelope? f.type.namedType) b) =
          .ok other ∧ child.Same other)
    (hc : x.relationContribution t f r arguments a = .ok c) :
    ∃ d, x.relationContribution t f r others b = .ok d ∧ c.Same d := by
  obtain ⟨hcheck, target, child, htarget, hchild, rfl⟩ := relationContribution_eq_ok_iff.1 hc
  obtain ⟨other, hother, hbelow⟩ := below target child htarget hchild
  refine ⟨_, relationContribution_eq_ok_iff.2
    ⟨checkEnvelope_congr h _ _ hcheck, target, other, htarget, hother, rfl⟩, ?_⟩
  exact ⟨rfl, rfl, .cons ⟨rfl, rfl, rfl, hsame, rfl⟩ (hbelow.addColumn _) .nil⟩

/-- The same for a field that is requested. -/
lemma exists_same_requestedContribution {x : Projector} (hx : x.RespectsSame) {name : String}
    {t : OutputType} {f : FieldDescriptor} {first first' : FieldNode} {rest rest' : List FieldNode}
    {c : Contribution} (ht : x.registry.describe name = .ok (some t)) (hf : f ∈ t.fields)
    (hfirst : Value.Keyed (.object first.arguments))
    (hfirst' : Value.Keyed (.object first'.arguments))
    (hsame : Value.sameArguments first.arguments first'.arguments = true)
    (h : AsksSame (childrenOf (first :: rest)) (childrenOf (first' :: rest')))
    (below : ∀ target child,
      x.registry.describe (itemType (x.registry.envelope? f.type.namedType) f.type.namedType) =
        .ok (some target) →
      x.projectType target (itemNodes (x.registry.envelope? f.type.namedType)
        (childrenOf (first :: rest))) = .ok child →
      ∃ other, x.projectType target (itemNodes (x.registry.envelope? f.type.namedType)
        (childrenOf (first' :: rest'))) = .ok other ∧ child.Same other)
    (hc : x.requestedContribution t f first rest = .ok c) :
    ∃ d, x.requestedContribution t f first' rest' = .ok d ∧ c.Same d := by
  rw [requestedContribution] at hc ⊢
  rw [← hx.allows_eq ht hf hfirst hfirst' hsame]
  split at hc
  · next hallows =>
    rw [if_pos hallows]
    -- Only a relation looks at what is below it; the rest depends on the arguments of the field.
    cases hkind : f.kind with
    | column column =>
      rw [hkind] at hc
      cases hc
      exact ⟨_, rfl, rfl, rfl, .nil⟩
    | computed outputAlias e =>
      rw [hkind] at hc
      simp only at hc ⊢
      rw [← hx.expressionText?_eq ht hf hkind hfirst hfirst' hsame]
      cases hc
      exact ⟨_, rfl, rfl, rfl, .nil⟩
    | relation r =>
      rw [hkind] at hc
      exact exists_same_relationContribution h hsame below hc
    | notSelectable =>
      rw [hkind] at hc
      cases hc
      exact ⟨_, rfl, .none⟩
  · next hdenied =>
    rw [if_neg hdenied]
    cases hc
    exact ⟨_, rfl, .none⟩

/-- And for any field of a type. -/
theorem exists_same_contribution {x : Projector} (hx : x.RespectsSame) {name : String}
    {t : OutputType} {f : FieldDescriptor} {a b : List FieldNode} {c : Contribution}
    (ht : x.registry.describe name = .ok (some t)) (hf : f ∈ t.fields) (ha : Keyed a)
    (hb : Keyed b) (h : AsksSame a b) (hcheck : t.checkFields a [] = .ok ())
    (below : ∀ target child, requested a f.name ≠ [] →
      x.registry.describe (itemType (x.registry.envelope? f.type.namedType) f.type.namedType) =
        .ok (some target) →
      x.projectType target (itemNodes (x.registry.envelope? f.type.namedType)
        (childrenOf (requested a f.name))) = .ok child →
      ∃ other, x.projectType target (itemNodes (x.registry.envelope? f.type.namedType)
        (childrenOf (requested b f.name))) = .ok other ∧ child.Same other)
    (hc : x.contribution t a f = .ok c) :
    ∃ d, x.contribution t b f = .ok d ∧ c.Same d := by
  obtain ⟨own, hown, rfl⟩ := contribution_eq_ok_iff.1 hc
  suffices hsuffices : ∃ d, x.ownContribution t b f = .ok d ∧ own.Same d by
    obtain ⟨d, hd, hsame⟩ := hsuffices
    exact ⟨_, contribution_eq_ok_iff.2 ⟨d, hd, rfl⟩, hsame.behind _⟩
  -- The two selections request the field both or neither, and what they ask below it is the same.
  have hchildren := h.requested f.name
  rw [ownContribution] at hown ⊢
  cases hrequested : requested a f.name with
  | nil =>
    rw [hrequested] at hown
    rw [requested_eq_nil_congr h hrequested]
    exact ⟨own, hown, same_forcedContribution hown⟩
  | cons first rest =>
    cases hrequested' : requested b f.name with
    | nil =>
      rw [requested_eq_nil_congr h.symm hrequested'] at hrequested
      cases hrequested
    | cons first' rest' =>
      have hsame := sameArguments_of_requested ha hb h hcheck hrequested hrequested'
      have hfirst : Value.Keyed (.object first.arguments) :=
        ha _ _ (.here (requested_subset a _ (hrequested ▸ List.mem_cons_self)))
      have hfirst' : Value.Keyed (.object first'.arguments) :=
        hb _ _ (.here (requested_subset b _ (hrequested' ▸ List.mem_cons_self)))
      rw [hrequested] at hown
      rw [hrequested, hrequested'] at below hchildren
      exact exists_same_requestedContribution hx ht hf hfirst hfirst' hsame hchildren
        (fun target child => below target child (List.cons_ne_nil first rest)) hown

/-! ## Projections of selections that ask for the same -/

/-- Selections on a type that ask for the same have the same projection. -/
lemma exists_same_projectType {x : Projector} (hx : x.RespectsSame) {name : String}
    {t : OutputType} {a b : List FieldNode} {p : Projection}
    (ht : x.registry.describe name = .ok (some t)) (ha : Keyed a) (hb : Keyed b)
    (h : AsksSame a b) (hp : x.projectType t a = .ok p) :
    ∃ q, x.projectType t b = .ok q ∧ p.Same q := by
  induction hdepth : depths a using Nat.strongRecOn generalizing name t a b p with
  | _ n ih =>
  subst hdepth
  obtain ⟨hcheck, parts, hparts, rfl⟩ := projectType_eq_ok_iff.1 hp
  have hfields : ∀ f ∈ t.fields, ∀ c, x.contribution t a f = .ok c →
      ∃ d, x.contribution t b f = .ok d ∧ c.Same d := by
    intro f hf c
    refine exists_same_contribution hx ht hf ha hb h hcheck ?_
    intro target child hne htarget hchild
    refine ih _ ?_ htarget ((ha.requested f.name).itemNodes _) ((hb.requested f.name).itemNodes _)
      ((h.requested f.name).itemNodes _) hchild rfl
    exact Nat.lt_of_le_of_lt (depths_itemNodes_le _ _)
      (depths_childrenOf_lt (requested_subset a f.name) hne)
  obtain ⟨others, hothers, hsame⟩ := exists_forall₂_of_mem hparts hfields
  exact ⟨_, projectType_eq_ok_iff.2 ⟨checkFields_congr ha hb h t hcheck, others, hothers, rfl⟩,
    (Projection.Same.of_relations_eq_nil rfl).foldl_extend hsame⟩

/-- Selections that ask for the same have the same projection. -/
lemma exists_same_project {x : Projector} (hx : x.RespectsSame) {type : String}
    {a b : List FieldNode} {p : Projection} (ha : Keyed a) (hb : Keyed b) (h : AsksSame a b)
    (hp : x.project type a = .ok p) : ∃ q, x.project type b = .ok q ∧ p.Same q := by
  rw [project] at hp ⊢
  split at hp
  · cases hp
  · next hcheck =>
    rw [checkEnvelope_congr h _ _ hcheck]
    simp only
    split at hp
    · cases hp
    · cases hp
      exact ⟨_, rfl, .of_relations_eq_nil rfl⟩
    · next t ht =>
      exact exists_same_projectType hx ht (ha.itemNodes _) (hb.itemNodes _) (h.itemNodes _) hp

/-- **A projection depends on what is asked for.**  Of two selections that are rewritten into each
other, by changing the order of fields, their aliases, or how often and in how many pieces a field
is written, at any depth and any number of times, both have a projection or none has; and the two
projections are the same. -/
theorem same_of_rewriting {x : Projector} (hx : x.RespectsSame) {type : String}
    {a b : List FieldNode} (h : Rewriting a b) (ha : Keyed a) :
    ((∃ p, x.project type a = .ok p) ↔ ∃ q, x.project type b = .ok q) ∧
      ∀ p q, x.project type a = .ok p → x.project type b = .ok q → p.Same q := by
  obtain ⟨hkeyed, hasks⟩ := h.asksSame
  have hb := hkeyed.1 ha
  have hsame := hasks ha
  refine ⟨⟨fun ⟨p, hp⟩ => ?_, fun ⟨q, hq⟩ => ?_⟩, fun p q hp hq => ?_⟩
  · obtain ⟨q, hq, -⟩ := exists_same_project hx ha hb hsame hp
    exact ⟨q, hq⟩
  · obtain ⟨p, hp, -⟩ := exists_same_project hx hb ha hsame.symm hq
    exact ⟨p, hp⟩
  · obtain ⟨q', hq', hpq⟩ := exists_same_project hx ha hb hsame hp
    obtain rfl := Except.ok.inj (hq.symm.trans hq')
    exact hpq

/-! ## A gallery -/

/-- A text that is cut off at the length that is bound, if one is. -/
def excerpt (bound : Bindings) : String :=
  match bound.argument? "length" with
  | some (.int n) => "left(bio, " ++ toString n ++ ")"
  | _ => "bio"

/-- Artists, with notes for whoever has a token, and their works in pages. -/
def gallery : Registry where
  settings := {}
  types := [
    { name := "Artist"
      table := some "artists"
      fields := [
        { name := "notes", type := "String"
          privacy := some fun arguments _ => arguments.has "token" },
        { name := "summary", type := "String"
          expression := some (.callback [⟨"length", .scalar "Int"⟩] excerpt) },
        { name := "works", type := "WorkPagination!"
          relation := some { localKey := some "id", foreignKey := some "artist_id" } }] },
    { name := "Work"
      table := some "works"
      fields := [{ name := "title", type := "String" }] }]

/-- The notes, asked for with a token. -/
def notesNode : FieldNode := ⟨none, "notes", [("token", .string "t")], ⟨1, 3⟩, []⟩

/-- The summary, cut off. -/
def summaryNode : FieldNode := ⟨none, "summary", [("length", .int 80)], ⟨1, 20⟩, []⟩

/-- A page of works, with some of the fields of the envelope. -/
def worksNode (children : List FieldNode) : FieldNode :=
  ⟨none, "works", [("limit", .int 2), ("page", .int 1)], ⟨1, 40⟩, children⟩

/-- The titles of a page of works, under some key. -/
def titlesNode (key : Option String) : FieldNode :=
  ⟨none, "data", [], ⟨1, 60⟩, [⟨key, "title", [], ⟨1, 67⟩, []⟩]⟩

/-- How many works there are. -/
def totalNode : FieldNode := ⟨none, "total", [], ⟨1, 75⟩, []⟩

/-- The other fields of the same page, the arguments in another order. -/
def countNode : FieldNode :=
  ⟨some "count", "works", [("page", .int 1), ("limit", .int 2)], ⟨1, 1⟩, [totalNode]⟩

/-- What is selected of an artist. -/
def artistSelection : List FieldNode :=
  [notesNode, summaryNode, worksNode [titlesNode none, totalNode]]

/-- The same in another order, the works in two pieces and their titles renamed. -/
def rewrittenSelection : List FieldNode :=
  [countNode, worksNode [titlesNode (some "label")], summaryNode, notesNode]

/-- One selection is rewritten into the other in four steps: its fields are reversed, the works are
split, their titles renamed, and the two pieces change places. -/
theorem rewriting_artistSelection : Rewriting artistSelection rewrittenSelection := by
  have hreverse : Rewrite artistSelection
      [worksNode [titlesNode none, totalNode], summaryNode, notesNode] :=
    .permute (List.reverse_perm artistSelection).symm
  have hsplit : Rewrite [worksNode [titlesNode none, totalNode], summaryNode, notesNode]
      [worksNode [titlesNode none], countNode, summaryNode, notesNode] :=
    .split (worksNode [titlesNode none, totalNode]) _ [titlesNode none] [totalNode] _ _ _ rfl
      (.of_keys (by decide) (by decide)) (by decide)
  have hrename : Rewrite [titlesNode none] [titlesNode (some "label")] :=
    .inside (titlesNode none) [] (.rename _ [] _)
  have hinside : Rewrite [worksNode [titlesNode none], countNode, summaryNode, notesNode]
      [worksNode [titlesNode (some "label")], countNode, summaryNode, notesNode] :=
    .inside (worksNode [titlesNode none]) _ hrename
  have hswap : Rewrite [worksNode [titlesNode (some "label")], countNode, summaryNode, notesNode]
      rewrittenSelection := .permute (.swap _ _ _)
  exact .trans _ _ _ (.rel _ _ hreverse) (.trans _ _ _ (.rel _ _ hsplit)
    (.trans _ _ _ (.rel _ _ hinside) (.rel _ _ hswap)))

/-- The length is bound to what the arguments hold. -/
lemma eq_of_bind_length {arguments : Arguments} {services : ServiceLocator} {bound : Bindings}
    (h : bind [⟨"length", .scalar "Int"⟩] arguments services = .ok bound) :
    ∃ v, arguments.get? "length" = some v ∧ bound = [("length", .argument v)] := by
  cases hv : arguments.get? "length" with
  | none =>
    simp only [bind, bindOnto, Parameter.resolve?, hv] at h
    cases h
  | some v =>
    simp only [bind, bindOnto, Parameter.resolve?, hv] at h
    cases h
    exact ⟨v, rfl, rfl⟩

lemma excerpt_eq_of_same {v w : Value} (h : v.same w = true) :
    excerpt [("length", .argument v)] = excerpt [("length", .argument w)] := by
  by_cases hkey : v.isKey = true
  · rw [(Value.same_iff_eq_of_isKey hkey).1 h]
  · cases v <;> cases w <;> first | rfl | simp [Value.same, Value.isKey] at h hkey

/-- The notes look for a token only, and the summary at its length. -/
lemma respectsSame_gallery : RespectsSame ⟨gallery, fun _ => none⟩ := by
  refine .of_declared (fun type htype d hd rule hrule => ?_)
    (fun type htype d hd parameters build hbuild => ?_)
  · have hall : ∀ type ∈ gallery.types, ∀ d ∈ type.fields, d.privacy = none ∨
        d.privacy = some fun arguments _ => arguments.has "token" := by
      simp [gallery]
    rcases hall type htype d hd with hnone | hsome
    · rw [hnone] at hrule
      cases hrule
    · obtain rfl := Option.some.inj (hsome.symm.trans hrule)
      intro a b ha _ h
      exact Value.isSome_get?_of_sameArguments ha.nodup_names h "token"
  · have hall : ∀ type ∈ gallery.types, ∀ d ∈ type.fields, d.expression = none ∨
        d.expression = some (.callback [⟨"length", .scalar "Int"⟩] excerpt) := by
      simp [gallery]
    rcases hall type htype d hd with hnone | hsome
    · rw [hnone] at hbuild
      cases hbuild
    · cases hsome.symm.trans hbuild
      intro a b _ _ h bound others hbound hothers
      obtain ⟨v, hv, rfl⟩ := eq_of_bind_length hbound
      obtain ⟨w, hw, rfl⟩ := eq_of_bind_length hothers
      obtain ⟨w', hw', hsame⟩ := Value.exists_get?_of_sameArguments h hv
      obtain rfl := Option.some.inj (hw.symm.trans hw')
      exact excerpt_eq_of_same hsame

/-- Both selections of an artist have a projection, and the two are the same although the pages of
works have their arguments in different orders. -/
theorem same_of_rewriting_artistSelection :
    Rewriting artistSelection rewrittenSelection ∧ Keyed artistSelection ∧
      ∃ p q, project ⟨gallery, fun _ => none⟩ "Artist" artistSelection = .ok p ∧
        project ⟨gallery, fun _ => none⟩ "Artist" rewrittenSelection = .ok q ∧ p.Same q := by
  have hkeyed : Keyed artistSelection := .of_everyIn (by decide)
  have hok : (project ⟨gallery, fun _ => none⟩ "Artist" artistSelection).isOk = true := by
    decide +kernel
  cases hp : project ⟨gallery, fun _ => none⟩ "Artist" artistSelection with
  | error e =>
    rw [hp] at hok
    cases hok
  | ok p =>
    obtain ⟨hiff, hsame⟩ := same_of_rewriting respectsSame_gallery rewriting_artistSelection hkeyed
    obtain ⟨q, hq⟩ := hiff.1 ⟨p, hp⟩
    exact ⟨rewriting_artistSelection, hkeyed, p, q, rfl, hq, hsame p q hp hq⟩

end Projector

end GraphProjection
