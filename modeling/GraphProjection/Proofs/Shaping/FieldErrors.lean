import GraphProjection.Proofs.Projection.Levels
import GraphProjection.Proofs.Readiness
import GraphProjection.Proofs.Shaping.Parts

/-!
# Errors of single fields

A field error says that a field could not be bound, and where its null stands.  The path is put
together on the way back from the value, one step for every list and every field that is passed, so
that every error points at a null of what is shown (`pointing_of_shapeValue`).

`Shaper.FailsToBind` says of a field of a row that its parameters are not bound, and the errors are
those of such fields, wherever shaping reaches a row (`mem_errors_iff`).

Whoever makes the projection has come to the same conclusion before: the level of the row does not
have the expression (`exists_level_of_reachesRow`, `LevelOf.alias_notMem`).  That takes a registry
in which no type is named like an envelope; `almanac` shows what else happens.

Main statement: **`errors_of_shape`**.
-/

namespace GraphProjection

open FieldNode

namespace Shaper

variable {x : Shaper} {type : String} {nodes : List FieldNode}

/-! ## Fields that are not bound -/

/-- An expression is asked for whose parameters are not bound by the arguments of the first field of
its response key and the services; its privacy rule allows it, and it has no resolver. -/
structure FailsToBind (x : Shaper) (t : OutputType) (nodes : List FieldNode) (g : ResponseField)
    (f : FieldDescriptor) (outputAlias : String) (fault : BindError) : Prop
    extends x.Allows t nodes g f where
  resolver : f.resolver = none
  unbound : ∃ parameters build, f.kind = .computed outputAlias (.callback parameters build) ∧
    bind parameters g.node.arguments x.services = .error fault

/-- Shaping reaches a row of which such a field is asked, and an error says so: its path leads to
the row and there to the key of the field, and it stands where the first field of the key does. -/
def Reports (x : Shaper) (type : String) (nodes : List FieldNode) (value : Value)
    (e : FieldError) : Prop :=
  ∃ path t inner row g f outputAlias fault, x.ReachesRow type nodes value path t inner row ∧
    x.FailsToBind t inner g f outputAlias fault ∧
    e = ⟨path ++ [.key g.key], g.node.location, fault⟩

lemma Reports.item {items : List Value} {n : Nat} {v : Value} (hv : items[n]? = some v)
    {e : FieldError} (h : x.Reports type nodes v e) :
    x.Reports type nodes (.array items) (e.under (.index n)) := by
  obtain ⟨path, t, inner, row, g, f, outputAlias, fault, hreaches, hfails, rfl⟩ := h
  exact ⟨_, t, inner, row, g, f, outputAlias, fault, .item hv hreaches, hfails, rfl⟩

lemma Reports.data {item : String} {kind : PageKind} {members : Row} {g : ResponseField}
    {v : Value} (henvelope : x.registry.envelope? type = some (kind, item))
    (hg : g ∈ grouped nodes) (hname : g.node.name = "data") (hv : members.get? "data" = some v)
    {e : FieldError} (h : x.Reports item g.children v e) :
    x.Reports type nodes (.object members) (e.under (.key g.key)) := by
  obtain ⟨path, t, inner, row, g', f, outputAlias, fault, hreaches, hfails, rfl⟩ := h
  exact ⟨_, t, inner, row, g', f, outputAlias, fault, .data henvelope hg hname hv hreaches,
    hfails, rfl⟩

lemma Reports.relation {t : OutputType} {members : Row} {g : ResponseField}
    {f : FieldDescriptor} {relation : RelationDescriptor} {v : Value}
    (henvelope : x.registry.envelope? type = none)
    (ht : x.registry.describe type = .ok (some t)) (hallows : x.Allows t nodes g f)
    (hresolver : f.resolver = none) (hkind : f.kind = .relation relation)
    (hv : members.get? f.name = some v) {e : FieldError}
    (h : x.Reports f.type.namedType g.children v e) :
    x.Reports type nodes (.object members) (e.under (.key g.key)) := by
  obtain ⟨path, t', inner, row, g', f', outputAlias, fault, hreaches, hfails, rfl⟩ := h
  exact ⟨_, t', inner, row, g', f', outputAlias, fault,
    .relation henvelope ht hallows hresolver hkind hv hreaches, hfails, rfl⟩

/-! ### What single fields leave -/

/-- Only an expression with parameters can fail to be bound. -/
lemma bindFault?_eq_some_iff {e : Expression} {arguments : Arguments} {fault : BindError} :
    x.bindFault? e arguments = some fault ↔ ∃ parameters build,
      e = .callback parameters build ∧ bind parameters arguments x.services = .error fault := by
  cases e with
  | raw sql => simp [bindFault?]
  | callback parameters build =>
    rw [bindFault?]
    cases hbind : bind parameters arguments x.services <;> simp [hbind]

/-- A field that is not bound leaves null and its error. -/
lemma rowField_of_failsToBind {t : OutputType} {g : ResponseField} {f : FieldDescriptor}
    {outputAlias : String} {fault : BindError} (h : x.FailsToBind t nodes g f outputAlias fault)
    (row : Row) (below : Below) :
    x.rowField t row below g = .ok ⟨.null, [⟨[], g.node.location, fault⟩]⟩ := by
  obtain ⟨parameters, build, hkind, hbind⟩ := h.unbound
  have hfault := bindFault?_eq_some_iff.2 ⟨parameters, build, rfl, hbind⟩
  rw [rowField, if_neg h.name, h.found]
  simp only [fieldValue, h.allowed, h.resolver, hkind, hfault]
  rfl

/-- A field of a row leaves an error because it is not bound, or further down a relation. -/
lemma rowField_cases {t : OutputType} {row : Row} {below : Below} {g : ResponseField}
    {own : Shaped} (hg : g ∈ grouped nodes) (h : x.rowField t row below g = .ok own) :
    own.errors = [] ∨
      (∃ f outputAlias fault, x.FailsToBind t nodes g f outputAlias fault ∧
        own = ⟨.null, [⟨[], g.node.location, fault⟩]⟩) ∨
      ∃ f relation, x.Allows t nodes g f ∧ f.resolver = none ∧ f.kind = .relation relation ∧
        shapeMember below f.name f.type.namedType g.children = .ok own := by
  rw [rowField] at h
  split at h
  · cases h
    exact .inl rfl
  · next htypename =>
    split at h
    · cases h
    · next f hf =>
      rw [fieldValue] at h
      split at h
      · cases h
        exact .inl rfl
      · next hallowed =>
        have hallows : x.Allows t nodes g f := ⟨⟨hg, htypename, hf⟩, by simpa using hallowed⟩
        cases hresolver : f.resolver with
        | some resolver =>
          simp only [hresolver] at h
          cases h
          exact .inl rfl
        | none =>
          simp only [hresolver] at h
          cases hkind : f.kind with
          | column column =>
            simp only [hkind] at h
            cases h
            exact .inl rfl
          | notSelectable =>
            simp only [hkind] at h
            cases h
            exact .inl rfl
          | relation relation =>
            simp only [hkind] at h
            exact .inr (.inr ⟨f, relation, hallows, hresolver, hkind, h⟩)
          | computed outputAlias e =>
            simp only [hkind] at h
            cases hfault : x.bindFault? e g.node.arguments with
            | none =>
              simp only [hfault] at h
              cases h
              exact .inl rfl
            | some fault =>
              simp only [hfault] at h
              cases h
              obtain ⟨parameters, build, rfl, hbind⟩ := bindFault?_eq_some_iff.1 hfault
              exact .inr (.inl ⟨f, outputAlias, fault,
                ⟨hallows, hresolver, parameters, build, hkind, hbind⟩, rfl⟩)

/-- A field of an envelope leaves an error only below the data. -/
lemma envelopeField_cases {kind : PageKind} {item : String} {envelope : Row} {below : Below}
    {g : ResponseField} {own : Shaped}
    (h : envelopeField type kind item envelope below g = .ok own) :
    own.errors = [] ∨
      (g.node.name = "data" ∧ shapeMember below "data" item g.children = .ok own) := by
  rw [envelopeField] at h
  split at h
  · cases h
    exact .inl rfl
  · split at h
    · next hname => exact .inr ⟨hname, h⟩
    · split at h
      · cases h
        exact .inl rfl
      · cases h

/-- What a part of an object may leave: no errors, the error of a field that is not bound, or those
of a member, which are reported for the object one step further up. -/
inductive LeftBy (x : Shaper) (type : String) (nodes : List FieldNode) (members : Row)
    (g : ResponseField) : Shaped → Prop
  | silent {own : Shaped} (none : own.errors = []) : LeftBy x type nodes members g own
  | fault {fault : BindError}
      (reports : x.Reports type nodes (.object members) ⟨[.key g.key], g.node.location, fault⟩) :
      LeftBy x type nodes members g ⟨.null, [⟨[], g.node.location, fault⟩]⟩
  | member {own : Shaped} {name below : String} {v : Value} (found : members.get? name = some v)
      (shaped : x.shapeValue v below g.children = .ok own)
      (reports : ∀ e, x.Reports below g.children v e →
        x.Reports type nodes (.object members) (e.under (.key g.key))) :
      LeftBy x type nodes members g own

/-- An object has no errors, or it is made of parts, one for each of its fields. -/
lemma shapeValue_object_cases {members : Row} {shaped : Shaped}
    (h : x.shapeValue (.object members) type nodes = .ok shaped) :
    shaped.errors = [] ∨ ∃ parts : List (ResponseField × Shaped),
      shaped.ComposedOf (parts.map fun part => (.key part.1.key, part.2)) ∧
      ∀ g own, (g, own) ∈ parts → x.LeftBy type nodes members g own := by
  cases henvelope : x.registry.envelope? type with
  | some pair =>
    obtain ⟨kind, item⟩ := pair
    rw [shapeValue_of_envelope members henvelope] at h
    obtain ⟨parts, hgroups, hparts, hcomposed⟩ := exists_parts_of_shapeObject h
    refine .inr ⟨parts, hcomposed, fun g own hpart => ?_⟩
    have hg : g ∈ grouped nodes := hgroups ▸ List.mem_map_of_mem hpart
    rcases envelopeField_cases (hparts _ hpart) with hnone | ⟨hname, hmember⟩
    · exact .silent hnone
    · rcases shapeMember_cases hmember with hnone | ⟨v, hv, hown⟩
      · exact .silent hnone
      · exact .member hv hown fun e he => he.data henvelope hg hname hv
  | none =>
    rw [shapeValue, shapeMembersAs, henvelope] at h
    cases hdescribed : x.registry.describe type with
    | error e =>
      simp only [hdescribed] at h
      cases h
    | ok described =>
      cases described with
      | none =>
        simp only [hdescribed] at h
        cases h
        exact .inl rfl
      | some t =>
        simp only [hdescribed] at h
        obtain ⟨parts, hgroups, hparts, hcomposed⟩ := exists_parts_of_shapeObject h
        refine .inr ⟨parts, hcomposed, fun g own hpart => ?_⟩
        have hg : g ∈ grouped nodes := hgroups ▸ List.mem_map_of_mem hpart
        rcases rowField_cases hg (hparts _ hpart) with hnone |
          ⟨f, outputAlias, fault, hfails, rfl⟩ |
          ⟨f, relation, hallows, hresolver, hkind, hmember⟩
        · exact .silent hnone
        · exact .fault ⟨[], t, nodes, members, g, f, outputAlias, fault,
            .here henvelope hdescribed, hfails, rfl⟩
        · rcases shapeMember_cases hmember with hnone | ⟨v, hv, hown⟩
          · exact .silent hnone
          · exact .member hv hown fun e he =>
              he.relation henvelope hdescribed hallows hresolver hkind hv

/-! ## Where the errors point, and which there are -/

/-- **Errors point at nulls**, in the order in which the value is gone through. -/
theorem pointing_of_shapeValue {v : Value} {shaped : Shaped}
    (h : x.shapeValue v type nodes = .ok shaped) : shaped.Pointing := by
  induction v using Value.induction_of_parts generalizing type nodes shaped with
  | array items ih =>
    obtain ⟨parts, hitems, hparts, hcomposed⟩ := exists_parts_of_shapeValue_array h
    refine hcomposed.pointing fun part hpart => ?_
    obtain ⟨⟨⟨v, own⟩, i⟩, hmem, rfl⟩ := List.mem_map.1 hpart
    have hin : (v, own) ∈ parts := List.mem_of_getElem? (List.mem_zipIdx_iff_getElem?.1 hmem)
    have hv : v ∈ items := by
      rw [← hitems]
      exact List.mem_map_of_mem hin
    exact ih v hv (hparts _ hin)
  | object members ih =>
    -- A field that fails by itself has its one error right there; all others come from below.
    rcases shapeValue_object_cases h with hnone | ⟨parts, hcomposed, hparts⟩
    · exact Shaped.pointing_of_errors_eq_nil hnone
    · refine hcomposed.pointing fun part hpart => ?_
      obtain ⟨⟨g, own⟩, hmem, rfl⟩ := List.mem_map.1 hpart
      cases hparts g own hmem with
      | silent none => exact Shaped.pointing_of_errors_eq_nil none
      | fault _ =>
        refine ⟨fun e he => ?_, List.pairwise_singleton _ _⟩
        rw [List.mem_singleton.1 he]
        rfl
      | member found shaped _ => exact ih _ _ found shaped
  | scalar v harray hobject =>
    obtain ⟨-, rfl⟩ := shapeValue_scalar_eq_ok harray hobject h
    exact Shaped.pointing_of_errors_eq_nil rfl

/-- Every error is that of a field that is not bound. -/
lemma reports_of_mem {v : Value} {shaped : Shaped}
    (h : x.shapeValue v type nodes = .ok shaped) {e : FieldError} (he : e ∈ shaped.errors) :
    x.Reports type nodes v e := by
  induction v using Value.induction_of_parts generalizing type nodes shaped e with
  | array items ih =>
    obtain ⟨parts, hitems, hparts, hcomposed⟩ := exists_parts_of_shapeValue_array h
    rw [hcomposed.errors] at he
    obtain ⟨part, hpart, he⟩ := List.mem_flatMap.1 he
    obtain ⟨⟨⟨v, own⟩, i⟩, hmem, rfl⟩ := List.mem_map.1 hpart
    obtain ⟨below, hbelow, rfl⟩ := List.mem_map.1 he
    have hi : parts[i]? = some (v, own) := List.mem_zipIdx_iff_getElem?.1 hmem
    have hv : items[i]? = some v := by
      rw [← hitems, List.getElem?_map, hi]
      rfl
    exact (ih v (List.mem_of_getElem? hv) (hparts _ (List.mem_of_getElem? hi)) hbelow).item hv
  | object members ih =>
    rcases shapeValue_object_cases h with hnone | ⟨parts, hcomposed, hparts⟩
    · rw [hnone] at he
      cases he
    · rw [hcomposed.errors] at he
      obtain ⟨part, hpart, he⟩ := List.mem_flatMap.1 he
      obtain ⟨⟨g, own⟩, hmem, rfl⟩ := List.mem_map.1 hpart
      obtain ⟨below, hbelow, rfl⟩ := List.mem_map.1 he
      cases hparts g own hmem with
      | silent none =>
        rw [none] at hbelow
        cases hbelow
      | fault reports =>
        rw [List.mem_singleton.1 hbelow]
        exact reports
      | member found shaped reports => exact reports _ (ih _ _ found shaped hbelow)
  | scalar v harray hobject =>
    obtain ⟨-, rfl⟩ := shapeValue_scalar_eq_ok harray hobject h
    cases he

/-- The errors of a field are among those of its object. -/
lemma mem_errors_of_shapeObject {shape : ResponseField → ShapeResult} {shaped : Shaped}
    (h : shapeObject shape nodes = .ok shaped) {g : ResponseField} (hg : g ∈ grouped nodes)
    {e : FieldError} (he : ∀ own, shape g = .ok own → e ∈ own.errors) :
    e.under (.key g.key) ∈ shaped.errors := by
  obtain ⟨parts, hgroups, hparts, hcomposed⟩ := exists_parts_of_shapeObject h
  rw [← hgroups] at hg
  obtain ⟨⟨g, own⟩, hmem, rfl⟩ := List.mem_map.1 hg
  rw [hcomposed.errors, List.flatMap_map]
  exact List.mem_flatMap.2 ⟨_, hmem, List.mem_map_of_mem (he own (hparts _ hmem))⟩

/-- A field that is not bound leaves its error wherever shaping reaches a row of which it is
asked. -/
theorem mem_errors_of_reachesRow {v : Value} {path : List PathSegment} {t : OutputType}
    {inner : List FieldNode} {row : Row} (hreaches : x.ReachesRow type nodes v path t inner row)
    {g : ResponseField} {f : FieldDescriptor} {outputAlias : String} {fault : BindError}
    (hfails : x.FailsToBind t inner g f outputAlias fault) {shaped : Shaped}
    (h : x.shapeValue v type nodes = .ok shaped) :
    ⟨path ++ [.key g.key], g.node.location, fault⟩ ∈ shaped.errors := by
  -- The error is one of the row, and every step on the way to the row keeps it, one segment longer.
  induction hreaches generalizing shaped with
  | @here type nodes t row envelope described =>
    rw [shapeValue_of_describe row envelope described] at h
    have hmem : FieldError.under (.key g.key) ⟨[], g.node.location, fault⟩ ∈ shaped.errors := by
      refine mem_errors_of_shapeObject h hfails.mem fun own hown => ?_
      rw [rowField_of_failsToBind hfails] at hown
      cases hown
      exact List.mem_singleton_self _
    exact hmem
  | @item type nodes inner t row path items n v found _ ih =>
    obtain ⟨parts, hitems, hparts, hcomposed⟩ := exists_parts_of_shapeValue_array h
    rw [← hitems, List.getElem?_map] at found
    obtain ⟨⟨v, own⟩, hn, rfl⟩ := Option.map_eq_some_iff.1 found
    have hbelow := ih hfails (hparts _ (List.mem_of_getElem? hn))
    rw [hcomposed.errors, List.flatMap_map]
    refine List.mem_flatMap.2 ⟨((v, own), n), List.mem_zipIdx_iff_getElem?.2 hn, ?_⟩
    exact List.mem_map.2 ⟨_, hbelow, rfl⟩
  | @data type item kind nodes inner t row members path g' v envelope mem name found _ ih =>
    rw [shapeValue_of_envelope members envelope] at h
    refine mem_errors_of_shapeObject h mem fun own hown => ih hfails ?_
    rwa [envelopeField_of_data name found] at hown
  | @relation type nodes inner t target row members path g' f' relation v envelope described
      allows resolver kind found _ ih =>
    rw [shapeValue_of_describe members envelope described] at h
    refine mem_errors_of_shapeObject h allows.mem fun own hown => ih hfails ?_
    rwa [rowField_of_relation allows resolver kind found] at hown

theorem mem_errors_iff {v : Value} {shaped : Shaped} (h : x.shapeValue v type nodes = .ok shaped)
    {e : FieldError} : e ∈ shaped.errors ↔ x.Reports type nodes v e := by
  refine ⟨reports_of_mem h, ?_⟩
  rintro ⟨path, t, inner, row, g, f, outputAlias, fault, hreaches, hfails, rfl⟩
  exact mem_errors_of_reachesRow hreaches hfails h

/-! ## The level of a row -/

/-- Who projects for the same requests. -/
def projector (x : Shaper) : Projector := ⟨x.registry, x.services⟩

/-- The level of a row is the projection, for its type, of fields among which are all those that are
asked of the row. -/
structure LevelOf (x : Shaper) (t : OutputType) (inner : List FieldNode) (type : String)
    (wider : List FieldNode) (level : Projection) : Prop where
  envelope : x.registry.envelope? type = none
  described : x.registry.describe type = .ok (some t)
  asked : inner ⊆ wider
  arguments : ArgumentsDistinct wider
  projected : x.projector.HasProjection type wider level

/-- A relation that is followed down from a row is one of its level, projected for what is asked
below all fields of its name. -/
lemma LevelOf.exists_relation (hprivacy : x.registry.PrivacyRespectsSame) {t : OutputType}
    {inner : List FieldNode} {wider : List FieldNode} {level : Projection}
    (h : x.LevelOf t inner type wider level) {g : ResponseField} {f : FieldDescriptor}
    {relation : RelationDescriptor} (hallows : x.Allows t inner g f)
    (hkind : f.kind = .relation relation) :
    ∃ entry child, level.relation? g.node.name = some (entry, child) ∧
      entry.page.isSome = (x.registry.envelope? f.type.namedType).isSome ∧
      x.projector.HasProjection f.type.namedType (childrenOf (requested wider g.node.name))
        child := by
  obtain ⟨-, hname⟩ := OutputType.mem_of_field? hallows.found
  have hnode : g.node ∈ wider := h.asked (mem_grouped hallows.mem).1
  have hsees : Projector.Sees x.projector t g.node f :=
    ⟨hallows.name, hallows.found, hallows.allowed⟩
  obtain ⟨q, hq, hlevel⟩ := h.projected.exists_projectType h.envelope h.described
  obtain ⟨entry, target, inner, hslot, hpage, hcheck, htarget, hinner⟩ :=
    Projector.exists_relation_of_sees hprivacy h.described
      (fun node hmem => h.arguments node (.here hmem)) hq hnode hsees hkind
  rw [← hname]
  refine ⟨entry, _, ?_, hpage, inner, ?_, .inr ⟨target.qualify relation.foreignKey, rfl⟩⟩
  · rcases hlevel with rfl | ⟨column, rfl⟩
    · exact hslot
    · exact (Projection.relation?_addColumn q column f.name).trans hslot
  · exact (Projector.project_eq_ok_iff htarget).2 ⟨hcheck, hinner⟩

/-- A projection has a level for every row that shaping reaches.  Shaping goes by the fields of a
response key and the projection by those of a name, which are more. -/
theorem exists_level_of_reachesRow (hapart : x.registry.EnvelopesApart)
    (hprivacy : x.registry.PrivacyRespectsSame) {v : Value} {path : List PathSegment}
    {t : OutputType} {inner : List FieldNode} {row : Row}
    (hreaches : x.ReachesRow type nodes v path t inner row) (hcoherent : Coherent nodes)
    {wider : List FieldNode} (hasked : nodes ⊆ wider) (harguments : ArgumentsDistinct wider)
    {p : Projection} (hp : x.projector.HasProjection type wider p) :
    ∃ level type' wider', p.levelAt? (x.registry.envelope? type).isSome (fieldsAlong nodes path) =
        some (level, false) ∧ x.LevelOf t inner type' wider' level := by
  -- Shaping follows the fields of a response key, projection all fields of a name. So the selection
  -- that is projected is `wider` than the one that is shaped.
  induction hreaches generalizing wider p with
  | @here type nodes t row envelope described =>
    refine ⟨p, type, wider, ?_, envelope, described, hasked, harguments, hp⟩
    rw [envelope, fieldsAlong]
    rfl
  | item _ _ ih => exact ih hcoherent hasked harguments hp
  | @data type item kind nodes inner t row members path g v envelope mem name found _ ih =>
    have htypename : g.node.name ≠ typename := by rw [name]; decide
    have hitem : x.registry.envelope? item = none := hapart.item envelope
    have hbelow : g.children ⊆ childrenOf (requested wider "data") := by
      rw [← name]
      exact children_subset_requested hcoherent.names mem hasked htypename
    obtain ⟨level, type', wider', hlevel, hof⟩ := ih (hcoherent.children mem) hbelow
      (harguments.childrenOf (requested_subset wider "data")) (hp.items envelope hitem)
    refine ⟨level, type', wider', ?_, hof⟩
    rw [hitem] at hlevel
    rw [fieldsAlong_key mem, name, envelope]
    exact (Projection.levelAt?_data p _).trans hlevel
  | @relation type nodes inner t target row members path g f relation v envelope described allows
      resolver kind found _ ih =>
    have hlevelOf : x.LevelOf t nodes type wider p :=
      ⟨envelope, described, hasked, harguments, hp⟩
    obtain ⟨entry, child, hfound, hpage, hchild⟩ := hlevelOf.exists_relation hprivacy allows kind
    have hbelow : g.children ⊆ childrenOf (requested wider g.node.name) :=
      children_subset_requested hcoherent.names allows.mem hasked allows.name
    obtain ⟨level, type', wider', hlevel, hof⟩ := ih (hcoherent.children allows.mem) hbelow
      (harguments.childrenOf (requested_subset wider g.node.name)) hchild
    refine ⟨level, type', wider', ?_, hof⟩
    rw [fieldsAlong_key allows.mem, envelope]
    refine (Projection.levelAt?_of_relation? hfound _).trans ?_
    rw [hpage]
    exact hlevel

end Shaper

/-- No two expressions of a described type have one alias. -/
lemma Registry.eq_of_alias_eq {r : Registry} {name : String} {t : OutputType}
    (ht : r.describe name = .ok (some t)) {f g : FieldDescriptor} (hf : f ∈ t.fields)
    (hg : g ∈ t.fields) {outputAlias : String} {e e' : Expression}
    (hkind : f.kind = .computed outputAlias e) (hkind' : g.kind = .computed outputAlias e') :
    f = g := by
  obtain ⟨d, -, hresolve⟩ := describe_eq_some_iff.1 ht
  obtain ⟨-, -, -, haliases, -⟩ := resolve_spec hresolve
  rw [OutputType.aliasNames, List.Nodup, List.pairwise_filterMap] at haliases
  have halias : f.alias? = some outputAlias := by rw [FieldDescriptor.alias?, hkind]
  have halias' : g.alias? = some outputAlias := by rw [FieldDescriptor.alias?, hkind']
  by_contra hne
  have hsymm : Std.Symm fun f g : FieldDescriptor => ∀ a, f.alias? = some a →
      ∀ b, g.alias? = some b → a ≠ b := ⟨fun f g h a ha b hb heq => h b hb a ha heq.symm⟩
  exact haliases.forall hf hg hne outputAlias halias outputAlias halias' rfl

namespace Shaper

variable {x : Shaper} {type : String} {nodes : List FieldNode}

/-- The level of a row does not have an expression that is not bound. -/
theorem LevelOf.alias_notMem {t : OutputType} {inner wider : List FieldNode} {level : Projection}
    (h : x.LevelOf t inner type wider level) {g : ResponseField} {f : FieldDescriptor}
    {outputAlias : String} {fault : BindError}
    (hfails : x.FailsToBind t inner g f outputAlias fault) :
    outputAlias ∉ level.expressions.map (·.2) := by
  intro hmem
  obtain ⟨⟨sql, name⟩, hexpression, rfl⟩ := List.mem_map.1 hmem
  obtain ⟨parameters, build, hkind, hunbound⟩ := hfails.unbound
  obtain ⟨hf, hname⟩ := OutputType.mem_of_field? hfails.found
  have hnode : g.node ∈ wider := h.asked (mem_grouped hfails.mem).1
  obtain ⟨q, hq, -⟩ := h.projected.exists_projectType h.envelope h.described
  obtain ⟨matching, hexact⟩ := h.projected.exact h.envelope h.described
  cases hexact with
  | intro tight _ _ =>
    -- The expression was rendered for the arguments of the first field of the name.
    obtain ⟨f', hf', e, arguments, hkind', ⟨first, rest, hfirst, rfl, -⟩, hrenders⟩ :=
      (tight.mem_expressions sql name).1 hexpression
    obtain rfl := Registry.eq_of_alias_eq h.described hf hf' hkind hkind'
    cases hkind.symm.trans hkind'
    obtain ⟨hcheck, -⟩ := Projector.projectType_eq_ok_iff.1 hq
    obtain ⟨first', rest', hfirst', hsame⟩ :=
      OutputType.exists_requested_of_checkFields hcheck hnode hfails.name
    rw [hname] at hfirst
    obtain ⟨rfl, -⟩ := List.cons.inj (hfirst.symm.trans hfirst')
    cases hrenders with
    | callback hbound =>
      -- Its arguments are those of the field whose parameters are not bound.
      have hbinds : ∃ all, bind parameters g.node.arguments x.services = .ok all := by
        rcases hsame with rfl | hsame
        · exact ⟨_, hbound⟩
        · have hmem : first ∈ wider :=
            requested_subset wider g.node.name (hfirst ▸ List.mem_cons_self)
          exact (exists_bind_of_sameArguments x.services parameters
            (h.arguments first (.here hmem)) hsame).1 ⟨_, hbound⟩
      obtain ⟨all, hall⟩ := hbinds
      cases hunbound.symm.trans hall

/-- **Field errors point at nulls, exactly where binding fails.**  Every error points at a null of
what is shown, no two at the same place, and they are in the order in which it is gone through; the
errors are those of the fields that are not bound, one for each row that shaping reaches and each
response key.  Where no type is named like an envelope and privacy rules do not tell same arguments
apart, the projection of a selection that is in order has a level for the row, without an expression
under the alias of such a field. -/
theorem errors_of_shape {value : Value} {shaped : Shaped}
    (h : x.shape type value nodes = .ok shaped) :
    (∀ e ∈ shaped.errors, shaped.value.at? e.path = some .null) ∧
    (shaped.errors.map (·.path)).Nodup ∧
    (shaped.errors.Pairwise fun a b => shaped.value.Before a.path b.path) ∧
    (∀ e, e ∈ shaped.errors ↔ ∃ path t inner row g f outputAlias fault,
      x.ReachesRow type nodes value path t inner row ∧
      x.FailsToBind t inner g f outputAlias fault ∧
      e = ⟨path ++ [.key g.key], g.node.location, fault⟩) ∧
    (x.registry.EnvelopesApart → x.registry.PrivacyRespectsSame → Coherent nodes →
      ArgumentsDistinct nodes → ∀ p, x.projector.project type nodes = .ok p →
      ∀ path t inner row g f outputAlias fault,
        x.ReachesRow type nodes value path t inner row →
        x.FailsToBind t inner g f outputAlias fault →
        ∃ level, p.levelAt? (x.registry.envelope? type).isSome (fieldsAlong nodes path) =
            some (level, false) ∧
          outputAlias ∉ level.expressions.map (·.2)) := by
  rw [shape] at h
  have hpointing := pointing_of_shapeValue h
  refine ⟨hpointing.null, ?_, hpointing.order, fun e => mem_errors_iff h, ?_⟩
  · rw [List.Nodup, List.pairwise_map]
    exact hpointing.order.imp fun hbefore => hbefore.ne
  · intro hapart hprivacy hcoherent harguments p hp path t inner row g f outputAlias fault
      hreaches hfails
    obtain ⟨level, type', wider, hlevel, hof⟩ := exists_level_of_reachesRow hapart hprivacy
      hreaches hcoherent (List.Subset.refl nodes) harguments
      (Projector.hasProjection_of_project hp)
    exact ⟨level, hlevel, hof.alias_notMem hfails⟩

/-! ## A diary -/

/-- How long ago something was written, which takes a clock. -/
def age : FieldDescriptor :=
  ⟨"age", .named "Int" false,
    .computed "age" (.callback [⟨"now", .service "Clock"⟩] fun _ => "now - written"), false, none,
    none⟩

/-- Days and what was noted on them. -/
def diary : Registry where
  settings := {}
  types := [
    { name := "Day"
      table := some "days"
      fields := [
        { name := "id", type := "ID!" },
        { name := "notes", type := "[Note!]!"
          relation := some { localKey := some "id", foreignKey := some "day_id" } }] },
    { name := "Note"
      table := some "notes"
      fields := [
        { name := "text", type := "String!" },
        { name := "age", type := "Int"
          expression := some (.callback [⟨"now", .service "Clock"⟩] fun _ => "now - written") }] }]

/-- The notes of a day. -/
def notes : FieldDescriptor :=
  ⟨"notes", .list (.named "Note" true) true, .relation ⟨"notes", "id", "day_id", none⟩, false, none,
    none⟩

/-- The type of days. -/
def day : OutputType :=
  ⟨"Day", some "days", [⟨"id", .named "ID" true, .column "id", false, none, none⟩, notes]⟩

/-- The type of notes. -/
def note : OutputType :=
  ⟨"Note", some "notes", [⟨"text", .named "String" true, .column "text", false, none, none⟩, age]⟩

/-- The notes of a day, their age and their text. -/
def diarySelection : List FieldNode :=
  [plainNode "id" [], plainNode "notes" [plainNode "age" [], plainNode "text" []]]

/-- A day with two notes. -/
def rainyDay : Value :=
  .object [("id", .int 1), ("notes", .array [.object [("text", .string "Rain")],
    .object [("text", .string "Sun")]])]

lemma reachesRow_diary :
    ReachesRow ⟨diary, fun _ => none⟩ "Day" diarySelection rainyDay [.key "notes", .index 0] note
      [plainNode "age" [], plainNode "text" []] [("text", .string "Rain")] := by
  have hday : diary.describe "Day" = .ok (some day) := by with_unfolding_all rfl
  have hnote : diary.describe "Note" = .ok (some note) := by with_unfolding_all rfl
  have hallows : Allows ⟨diary, fun _ => none⟩ day diarySelection
      ⟨plainNode "notes" [plainNode "age" [], plainNode "text" []],
        [plainNode "age" [], plainNode "text" []]⟩ notes :=
    ⟨⟨List.mem_cons_of_mem _ List.mem_cons_self, by decide, rfl⟩, rfl⟩
  have hrow : ReachesRow ⟨diary, fun _ => none⟩ "Note" [plainNode "age" [], plainNode "text" []]
      (.object [("text", .string "Rain")]) [] note [plainNode "age" [], plainNode "text" []]
      [("text", .string "Rain")] := .here (by decide +kernel) hnote
  exact .relation (by decide +kernel) hday hallows rfl rfl rfl (.item rfl hrow)

lemma failsToBind_age {r : Registry} {t : OutputType} (hage : t.field? "age" = some age)
    (others : List FieldNode) (hmem : (⟨plainNode "age" [], []⟩ : ResponseField) ∈
      grouped (plainNode "age" [] :: others)) :
    FailsToBind ⟨r, fun _ => none⟩ t (plainNode "age" [] :: others) ⟨plainNode "age" [], []⟩ age
      "age" ⟨"now"⟩ :=
  ⟨⟨⟨hmem, by decide, hage⟩, rfl⟩, rfl, _, _, rfl, rfl⟩

/-- Without a clock, each note has an error where its age is null, and the level of the notes does
not have the age. -/
theorem errors_of_shape_diary :
    ∃ shaped p level, shape ⟨diary, fun _ => none⟩ "Day" rainyDay diarySelection = .ok shaped ∧
      shaped.errors.map (·.path) = [[.key "notes", .index 0, .key "age"],
        [.key "notes", .index 1, .key "age"]] ∧
      (∀ e ∈ shaped.errors, shaped.value.at? e.path = some .null) ∧
      Projector.project ⟨diary, fun _ => none⟩ "Day" diarySelection = .ok p ∧
      p.levelAt? false ["notes"] = some (level, false) ∧
      "age" ∉ level.expressions.map (·.2) := by
  have hapart : diary.EnvelopesApart :=
    Registry.envelopesApart_of_typeNames (by decide +kernel)
  have hprivacy : diary.PrivacyRespectsSame :=
    Registry.privacyRespectsSame_of_isNone (by decide +kernel)
  have hcoherent : Coherent diarySelection :=
    .of_coherentTo (by decide : coherentTo 3 diarySelection = true)
  have harguments : ArgumentsDistinct diarySelection := .of_everyIn (by decide)
  have hrow : (diary.envelope? "Day").isSome = false := by decide +kernel
  have hpaths : (shape ⟨diary, fun _ => none⟩ "Day" rainyDay diarySelection).toOption.map
      (fun shaped => shaped.errors.map (·.path)) = some [[.key "notes", .index 0, .key "age"],
        [.key "notes", .index 1, .key "age"]] := by decide +kernel
  have hok : (Projector.project ⟨diary, fun _ => none⟩ "Day" diarySelection).isOk = true := by
    decide +kernel
  have hfails := failsToBind_age (r := diary) (t := note) rfl [plainNode "text" []]
    List.mem_cons_self
  obtain ⟨p, hp⟩ := exists_ok_of_isOk hok
  obtain ⟨shaped, hshape, hpaths⟩ := exists_ok_of_map_toOption hpaths
  obtain ⟨hnull, -, -, -, hlevels⟩ := errors_of_shape hshape
  obtain ⟨level, hlevel, hnot⟩ := hlevels hapart hprivacy hcoherent harguments p hp _ _ _ _ _
    _ _ _ reachesRow_diary hfails
  rw [hrow] at hlevel
  exact ⟨shaped, p, level, hshape, hpaths, hnull, hp, hlevel, hnot⟩

/-! ## An almanac -/

/-- An almanac has posts, and pages with notes; but the name of the type of pages is that of an
envelope of posts. -/
def almanac : Declarations where
  types := [
    { name := "Post"
      table := some "posts"
      fields := [
        { name := "id", type := "ID!" },
        { name := "age", type := "Int"
          expression := some (.callback [⟨"now", .service "Clock"⟩] fun _ => "now - written") }] },
    { name := "PostPagination"
      table := some "pages"
      fields := [
        { name := "id", type := "ID!" },
        { name := "data", type := "[Note!]!"
          relation := some { localKey := some "id", foreignKey := some "page_id" } }] },
    { name := "Note"
      table := some "notes"
      fields := [{ name := "age", type := "Int", expression := some (.raw "1 + 1") }] }]

/-- The registry of the almanac. -/
def almanacRegistry : Registry := ⟨almanac.settings, almanac.types⟩

lemma build_almanac : almanac.build = .ok almanacRegistry :=
  Declarations.build_of_isOk (by decide +kernel)

/-- The ages of what is on the pages. -/
def almanacSelection : List FieldNode :=
  [plainNode "data" [plainNode "data" [plainNode "age" []]]]

/-- One page with one note. -/
def almanacPages : Value :=
  .object [("data", .array [.object [("data", .array [.object [("age", .int 2)]])]])]

/-- The type of posts. -/
def almanacPost : OutputType :=
  ⟨"Post", some "posts", [⟨"id", .named "ID" true, .column "id", false, none, none⟩, age]⟩

lemma reachesRow_almanac :
    ReachesRow ⟨almanacRegistry, fun _ => none⟩ "PostPaginationPagination" almanacSelection
      almanacPages [.key "data", .index 0, .key "data", .index 0] almanacPost [plainNode "age" []]
      [("age", .int 2)] := by
  have hpages : almanacRegistry.envelope? "PostPaginationPagination" =
      some (.offset, "PostPagination") := by decide +kernel
  have hposts : almanacRegistry.envelope? "PostPagination" = some (.offset, "Post") := by
    decide +kernel
  have hpost : almanacRegistry.describe "Post" = .ok (some almanacPost) := by with_unfolding_all rfl
  have hrow : ReachesRow ⟨almanacRegistry, fun _ => none⟩ "Post" [plainNode "age" []]
      (.object [("age", .int 2)]) [] almanacPost [plainNode "age" []] [("age", .int 2)] :=
    .here (by decide +kernel) hpost
  have hinner : (⟨plainNode "data" [plainNode "age" []], [plainNode "age" []]⟩ : ResponseField) ∈
      grouped [plainNode "data" [plainNode "age" []]] := List.mem_cons_self
  have houter : (⟨plainNode "data" [plainNode "data" [plainNode "age" []]],
      [plainNode "data" [plainNode "age" []]]⟩ : ResponseField) ∈ grouped almanacSelection :=
    List.mem_cons_self
  exact .data hpages houter rfl rfl (.item rfl (.data hposts hinner rfl rfl (.item rfl hrow)))

/-- On the pages of the almanac shaping sees posts, whose age is not bound, where the projection has
a level for notes, which do have an age. -/
theorem alias_mem_level_almanac :
    ∃ shaped p level, almanac.build = .ok almanacRegistry ∧
      almanacRegistry.PrivacyRespectsSame ∧ Coherent almanacSelection ∧
      ArgumentsDistinct almanacSelection ∧
      shape ⟨almanacRegistry, fun _ => none⟩ "PostPaginationPagination" almanacPages
        almanacSelection = .ok shaped ∧
      Projector.project ⟨almanacRegistry, fun _ => none⟩ "PostPaginationPagination"
        almanacSelection = .ok p ∧
      ReachesRow ⟨almanacRegistry, fun _ => none⟩ "PostPaginationPagination" almanacSelection
        almanacPages [.key "data", .index 0, .key "data", .index 0] almanacPost
        [plainNode "age" []] [("age", .int 2)] ∧
      FailsToBind ⟨almanacRegistry, fun _ => none⟩ almanacPost [plainNode "age" []]
        ⟨plainNode "age" [], []⟩ age "age" ⟨"now"⟩ ∧
      p.levelAt? (almanacRegistry.envelope? "PostPaginationPagination").isSome
        (fieldsAlong almanacSelection [.key "data", .index 0, .key "data", .index 0]) =
          some (level, false) ∧
      "age" ∈ level.expressions.map (·.2) := by
  have hshape : (shape ⟨almanacRegistry, fun _ => none⟩ "PostPaginationPagination" almanacPages
      almanacSelection).isOk = true := by decide +kernel
  -- A level holds callbacks and cannot be compared as a whole; the names of its expressions can.
  have hlevel : (Projector.project ⟨almanacRegistry, fun _ => none⟩ "PostPaginationPagination"
      almanacSelection).toOption.map (fun p => (p.levelAt? true ["data", "data"]).map fun level =>
        (level.2, level.1.expressions.map (·.2))) = some (some (false, ["age"])) := by
    decide +kernel
  have hpaged : (almanacRegistry.envelope? "PostPaginationPagination").isSome = true := by
    decide +kernel
  obtain ⟨shaped, hshaped⟩ := exists_ok_of_isOk hshape
  obtain ⟨p, hp, hlevel⟩ := exists_ok_of_map_toOption hlevel
  obtain ⟨⟨level, paged⟩, hfound, heq⟩ := Option.map_eq_some_iff.1 hlevel
  obtain ⟨rfl, hexpressions⟩ : paged = false ∧ level.expressions.map (·.2) = ["age"] :=
    Prod.mk.inj heq
  refine ⟨shaped, p, level, build_almanac,
    Registry.privacyRespectsSame_of_isNone (by decide +kernel),
    .of_coherentTo (by decide : coherentTo 4 almanacSelection = true),
    .of_everyIn (by decide), hshaped, hp, reachesRow_almanac,
    failsToBind_age rfl [] List.mem_cons_self, ?_, ?_⟩
  · rw [hpaged]
    exact hfound
  · rw [hexpressions]
    exact List.mem_cons_self

end Shaper

end GraphProjection
