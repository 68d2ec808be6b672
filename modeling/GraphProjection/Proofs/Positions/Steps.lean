import GraphProjection.Proofs.Forcing.Policies
import GraphProjection.Proofs.Projection.Levels
import GraphProjection.Proofs.Shaping.Parts

/-!
# Types along a path

Expansion, projection and shaping go down a selection each by itself, and each asks the registry
what type stands at the next position: expansion asks `Registry.targetType?`, the projection looks
at the named type of a relation and at the items of an envelope, and so does shaping, which has a
value in hand.  Here the three are put side by side, for one step (`Registry.RelationAgrees`,
`Registry.EnvelopeAgrees`) and for whole paths.

`Registry.LeadsTo` is what a path of relations is in terms of the descriptors alone.  The registry
answers for it with the same type (`LeadsTo.typeAlong`), the level of a projection that the path
leads to is the projection of what is selected there on that type (`HasProjection.of_leadsTo`), and
the values that shaping comes to are shaped as that type (`Descends.typeAlong`).
-/

namespace GraphProjection

open FieldNode

/-- Fields are asked for along a path of field names, one below the other. -/
def FieldNode.AskedAlong : List FieldNode → List String → Prop
  | _, [] => True
  | nodes, name :: path =>
    requested nodes name ≠ [] ∧ AskedAlong (childrenOf (requested nodes name)) path

lemma FieldDescriptor.kind_of_relation? {f : FieldDescriptor} {relation : RelationDescriptor}
    (h : f.relation? = some relation) : f.kind = .relation relation := by
  rw [FieldDescriptor.relation?] at h
  split at h
  · next found hkind =>
    cases h
    exact hkind
  · cases h

/-! ## What the registry knows of a path -/

namespace Registry

variable {r : Registry} {type name : String}

/-- A field leads from one type to another: `data` from an envelope to the type of its items, and a
relation from a registered type to the named type of the field. -/
inductive Enters (r : Registry) : String → String → String → Prop
  | data {type item : String} {kind : PageKind} (envelope : r.envelope? type = some (kind, item)) :
      Enters r type "data" item
  | relation {type : String} {t : OutputType} {f : FieldDescriptor} {relation : RelationDescriptor}
      (described : r.describe type = .ok (some t)) (mem : f ∈ t.fields)
      (kind : f.kind = .relation relation) : Enters r type f.name f.type.namedType

/-- A path of relations, and of `data` where there are envelopes, leads from one type to another. -/
inductive LeadsTo (r : Registry) : String → List String → String → Prop
  | here (type : String) : LeadsTo r type [] type
  | step {type name next target : String} {path : List String} (enters : r.Enters type name next)
      (rest : LeadsTo r next path target) : LeadsTo r type (name :: path) target

/-- The named type of a relation, where the field of a name is one. -/
def relationType? (r : Registry) (type name : String) : Option String :=
  match r.describe type with
  | .ok (some t) => ((t.field? name).filter (·.relation?.isSome)).map (·.type.namedType)
  | _ => none

lemma enters_of_relationType? {r : Registry} {type name next : String}
    (h : r.relationType? type name = some next) : r.Enters type name next := by
  rw [relationType?] at h
  split at h
  · next t ht =>
    obtain ⟨f, hfound, rfl⟩ := Option.map_eq_some_iff.1 h
    obtain ⟨hf, hrelation⟩ := Option.filter_eq_some_iff.1 hfound
    obtain ⟨hmem, rfl⟩ := OutputType.mem_of_field? hf
    obtain ⟨relation, hrelation⟩ := Option.isSome_iff_exists.1 hrelation
    exact .relation ht hmem (FieldDescriptor.kind_of_relation? hrelation)
  · cases h

/-- The type that a path of field names leads to, as far as it is known. -/
def typeAlong (r : Registry) : String → List String → Option String
  | type, [] => some type
  | type, name :: path => (r.targetType? type name).bind (r.typeAlong · path)

lemma typeAlong_cons {next : String} (h : r.targetType? type name = some next)
    (path : List String) : r.typeAlong type (name :: path) = r.typeAlong next path := by
  rw [typeAlong, h, Option.bind_some]

lemma targetType?_of_envelope {kind : PageKind} {item : String}
    (h : r.envelope? type = some (kind, item)) (name : String) :
    r.targetType? type name = if name = "data" then some item else none := by
  rw [targetType?, h]

lemma targetType?_of_field? {t : OutputType} {f : FieldDescriptor}
    (henvelope : r.envelope? type = none) (ht : r.describe type = .ok (some t))
    (hf : t.field? name = some f) : r.targetType? type name = some f.type.namedType := by
  rw [targetType?, henvelope]
  simp only [ht, hf, Option.map_some]

/-- A described type has not the name of an envelope. -/
lemma EnvelopesApart.row (h : r.EnvelopesApart) {t : OutputType}
    (ht : r.describe type = .ok (some t)) : r.envelope? type = none :=
  h type (isRegistered_of_describe ht)

/-- Fragments below a field go by the type that the field leads to. -/
theorem Enters.targetType? {next : String} (h : r.Enters type name next)
    (hapart : r.EnvelopesApart) : r.targetType? type name = some next := by
  cases h with
  | data envelope => rw [targetType?_of_envelope envelope, if_pos rfl]
  | relation described mem _ =>
    exact targetType?_of_field? (hapart.row described) described (field?_of_mem described mem)

theorem LeadsTo.typeAlong {target : String} {path : List String} (h : r.LeadsTo type path target)
    (hapart : r.EnvelopesApart) : r.typeAlong type path = some target := by
  induction h with
  | here type => rfl
  | step enters _ ih => rw [typeAlong_cons (enters.targetType? hapart), ih]

end Registry

/-! ## Entries of rows that are shaped -/

/-- An entry of a row shaped as a type; an entry that is missing is null. -/
def Shaper.shapeEntry (x : Shaper) (row : Row) (name type : String) (nodes : List FieldNode) :
    ShapeResult :=
  match row.get? name with
  | some v => x.shape type v nodes
  | none => .ok (.pure .null)

lemma Shaper.shapeMember_shapeMembers (x : Shaper) (row : Row) (name type : String)
    (nodes : List FieldNode) :
    shapeMember (x.shapeMembers row) name type nodes = x.shapeEntry row name type nodes := by
  rw [shapeMember, shapeEntry, get?_shapeMembers]
  cases row.get? name <;> rfl

/-! ## One step -/

namespace Registry

/-- Envelopes are entered through `data` only, and there all three find the type of the items, which
is registered and no envelope in its turn. -/
structure EnvelopeAgrees (r : Registry) (services : ServiceLocator) (type : String)
    (kind : PageKind) (item : String) : Prop where
  registered : r.isRegistered item = true
  row : r.envelope? item = none
  expansion : ∀ name, r.targetType? type name = if name = "data" then some item else none
  projection : ∀ nodes, Projector.project ⟨r, services⟩ type nodes =
    (kind.checkFields type nodes).bind fun _ =>
      Projector.project ⟨r, services⟩ item (childrenOf (requested nodes "data"))
  shaping : ∀ members nodes, Shaper.shape ⟨r, services⟩ type (.object members) nodes =
    Shaper.shapeObject (fun g =>
      if g.node.name = "data" then
        Shaper.shapeEntry ⟨r, services⟩ members "data" item g.children
      else Shaper.envelopeField type kind item members [] g) nodes

/-- Below a relation all three find the named type of its field: it is the one by which fragments
are kept, what the relation adds to a projection is the projection of the fields below on it, and
what stands in the slot of the relation is shaped as it. -/
structure RelationAgrees (r : Registry) (services : ServiceLocator) (type : String)
    (t : OutputType) (f : FieldDescriptor) (relation : RelationDescriptor) : Prop where
  expansion : r.targetType? type f.name = some f.type.namedType
  projection : ∃ target,
    r.describe (Projector.itemType (r.envelope? f.type.namedType) f.type.namedType) =
      .ok (some target) ∧
    ∀ arguments inner p, Projector.addRelation ⟨r, services⟩ t f relation arguments inner
        (fun target below _ => Projector.projectType ⟨r, services⟩ target below) p =
      (Projector.project ⟨r, services⟩ f.type.namedType inner).map fun child =>
        (p.addColumn (t.qualify relation.localKey)).addRelation
          (Projector.relationEntry f relation target (r.envelope? f.type.namedType) arguments)
          (child.addColumn (target.qualify relation.foreignKey))
  shaping : ∀ (row : Row) g, f.allows g.node.arguments services = true → f.resolver = none →
    Shaper.fieldValue ⟨r, services⟩ f row (Shaper.shapeMembers ⟨r, services⟩ row) g =
      Shaper.shapeEntry ⟨r, services⟩ row f.name f.type.namedType g.children
  envelope : ∀ kind item, r.envelope? f.type.namedType = some (kind, item) →
    r.EnvelopeAgrees services f.type.namedType kind item

end Registry

namespace Projector

variable {x : Projector} {type : String}

lemma project_of_envelope {kind : PageKind} {item : String}
    (henvelope : x.registry.envelope? type = some (kind, item))
    (hitem : x.registry.envelope? item = none) (nodes : List FieldNode) :
    x.project type nodes = (kind.checkFields type nodes).bind fun _ =>
      x.project item (childrenOf (requested nodes "data")) := by
  rw [project, project, henvelope, hitem]
  simp only [checkEnvelope, itemType, itemNodes, envelopeItems_eq]
  cases kind.checkFields type nodes <;> rfl

/-- What a requested relation adds goes by the projection of the fields below it on the named type
of its field. -/
theorem addRelation_eq_map_project {t target : OutputType} {f : FieldDescriptor}
    {relation : RelationDescriptor}
    (htarget : x.registry.describe
      (itemType (x.registry.envelope? f.type.namedType) f.type.namedType) = .ok (some target))
    (arguments : Arguments) (inner : List FieldNode) (p : Projection) :
    x.addRelation t f relation arguments inner
        (fun target below _ => x.projectType target below) p =
      (x.project f.type.namedType inner).map fun child =>
        (p.addColumn (t.qualify relation.localKey)).addRelation
          (relationEntry f relation target (x.registry.envelope? f.type.namedType) arguments)
          (child.addColumn (target.qualify relation.foreignKey)) := by
  rw [addRelation, project, htarget]
  simp only [Registry.expect_eq_ok_iff.2 htarget]
  cases checkEnvelope (x.registry.envelope? f.type.namedType) f.type.namedType inner with
  | error e => rfl
  | ok _ =>
    cases x.projectType target (itemNodes (x.registry.envelope? f.type.namedType) inner) <;> rfl

end Projector

namespace Shaper

lemma shape_of_envelope {x : Shaper} {type item : String} {kind : PageKind}
    (henvelope : x.registry.envelope? type = some (kind, item)) (members : Row)
    (nodes : List FieldNode) :
    x.shape type (.object members) nodes =
      shapeObject (fun g =>
        if g.node.name = "data" then x.shapeEntry members "data" item g.children
        else envelopeField type kind item members [] g) nodes := by
  rw [shape, shapeValue_of_envelope members henvelope]
  refine congrArg (shapeObject · nodes) (funext fun g => ?_)
  by_cases hname : g.node.name = "data"
  · have htypename : g.node.name ≠ typename := by rw [hname]; decide
    rw [envelopeField, if_neg htypename, if_pos hname, if_pos hname, shapeMember_shapeMembers]
  · rw [envelopeField, envelopeField, if_neg hname, if_neg hname, if_neg hname]

lemma fieldValue_of_relation {x : Shaper} {f : FieldDescriptor} {relation : RelationDescriptor}
    (hkind : f.kind = .relation relation) (row : Row) {g : ResponseField}
    (hallows : f.allows g.node.arguments x.services = true) (hresolver : f.resolver = none) :
    x.fieldValue f row (x.shapeMembers row) g =
      x.shapeEntry row f.name f.type.namedType g.children := by
  rw [← shapeMember_shapeMembers]
  simp [fieldValue, hallows, hresolver, hkind]

end Shaper

namespace Registry

variable {d : Declarations} {r : Registry} {type : String}

lemma EnvelopesApart.agrees (hapart : r.EnvelopesApart) (services : ServiceLocator)
    {kind : PageKind} {item : String} (henvelope : r.envelope? type = some (kind, item)) :
    r.EnvelopeAgrees services type kind item where
  registered := by
    have htarget : r.isOutputType type = true := by
      rw [isOutputType, henvelope, Option.isSome_some, Bool.or_true]
    simpa [henvelope, Projector.itemType] using isRegistered_itemType htarget
  row := hapart.item henvelope
  expansion := targetType?_of_envelope henvelope
  projection := Projector.project_of_envelope henvelope (hapart.item henvelope)
  shaping := Shaper.shape_of_envelope henvelope

/-- **One step.**  Below any relation of a registry that is built, expansion, projection and shaping
find the same type. -/
theorem relationAgrees_of_build (hbuild : d.build = .ok r) (hapart : r.EnvelopesApart)
    (services : ServiceLocator) {t : OutputType} (ht : r.describe type = .ok (some t))
    {f : FieldDescriptor} (hf : f ∈ t.fields) {relation : RelationDescriptor}
    (hkind : f.kind = .relation relation) : r.RelationAgrees services type t f relation where
  expansion := (Enters.relation ht hf hkind).targetType? hapart
  projection := by
    obtain ⟨target, htarget⟩ := targetsDescribed_of_build hbuild type t ht f hf relation hkind
    exact ⟨target, htarget, Projector.addRelation_eq_map_project htarget⟩
  shaping row g hallows hresolver := Shaper.fieldValue_of_relation hkind row hallows hresolver
  envelope _ _ henvelope := hapart.agrees services henvelope

end Registry

/-! ## Along the levels of a projection -/

/-- The level that a path leads to is the projection, on the type of the path, of what is selected
there; it belongs to a page where that type is an envelope. -/
theorem Projector.HasProjection.of_leadsTo {x : Projector} (hapart : x.registry.EnvelopesApart)
    {type target : String} {path : List String} (hleads : x.registry.LeadsTo type path target)
    {nodes : List FieldNode} {p : Projection} (h : x.HasProjection type nodes p)
    (hasked : AskedAlong nodes path) {level : Projection} {paged : Bool}
    (hlevel : p.levelAt? (x.registry.envelope? type).isSome path = some (level, paged)) :
    paged = (x.registry.envelope? target).isSome ∧
      x.HasProjection target (selectedAt nodes path) level := by
  -- An envelope and its items share one level, so `data` moves the type and the selection only.
  induction hleads generalizing nodes p with
  | here type =>
    rw [Projection.levelAt?_nil] at hlevel
    cases hlevel
    exact ⟨rfl, h⟩
  | @step type name next target path enters _ ih =>
    obtain ⟨hrequested, hbelow⟩ := hasked
    cases enters with
    | data envelope =>
      have hitem := hapart.item envelope
      rw [envelope, Option.isSome_some] at hlevel
      obtain ⟨-, hlevel⟩ := Projection.levelAt?_paged_cons hlevel
      refine ih (h.items envelope hitem) hbelow ?_
      rw [hitem]
      exact hlevel
    | @relation t f relation described mem kind =>
      have hrow := hapart.row described
      rw [hrow, Option.isSome_none] at hlevel
      obtain ⟨entry, child, hfound, hlevel⟩ := Projection.levelAt?_row_cons hlevel
      obtain ⟨f', _, hf', -, hpage, hchild⟩ :=
        h.below_relation hrow described hfound hrequested
      obtain rfl : f = f' := Option.some.inj ((Registry.field?_of_mem described mem).symm.trans hf')
      refine ih hchild hbelow ?_
      rw [← hpage]
      exact hlevel

/-! ## Along a value that is shaped -/

namespace Shaper

/-- A value that is shaped as a type, into the response to a selection. -/
structure Task where
  type : String
  nodes : List FieldNode
  value : Value

/-- Shaping goes one step down a value: to an item of a list, to the data of an envelope, or to what
stands in the slot of a relation that is allowed. -/
inductive Step (x : Shaper) : Task → PathSegment → Task → Prop
  | item {type : String} {nodes : List FieldNode} {items : List Value} {n : Nat} {v : Value}
      (found : items[n]? = some v) :
      Step x ⟨type, nodes, .array items⟩ (.index n) ⟨type, nodes, v⟩
  | data {type item : String} {kind : PageKind} {nodes : List FieldNode} {members : Row}
      {g : ResponseField} {v : Value} (envelope : x.registry.envelope? type = some (kind, item))
      (mem : g ∈ grouped nodes) (name : g.node.name = "data")
      (found : members.get? "data" = some v) :
      Step x ⟨type, nodes, .object members⟩ (.key g.key) ⟨item, g.children, v⟩
  | relation {type : String} {nodes : List FieldNode} {t : OutputType} {members : Row}
      {g : ResponseField} {f : FieldDescriptor} {relation : RelationDescriptor} {v : Value}
      (envelope : x.registry.envelope? type = none)
      (described : x.registry.describe type = .ok (some t)) (allows : x.Allows t nodes g f)
      (resolver : f.resolver = none) (kind : f.kind = .relation relation)
      (found : members.get? f.name = some v) :
      Step x ⟨type, nodes, .object members⟩ (.key g.key) ⟨f.type.namedType, g.children, v⟩

/-- Shaping goes down a value along a path of the response. -/
inductive Descends (x : Shaper) : Task → List PathSegment → Task → Prop
  | here (a : Task) : Descends x a [] a
  | step {a b c : Task} {segment : PathSegment} {path : List PathSegment}
      (first : x.Step a segment b) (rest : Descends x b path c) : Descends x a (segment :: path) c

variable {x : Shaper} {a b : Task}

/-- One step down is taken by the type that the registry gives for its field. -/
theorem Step.typeAlong {segment : PathSegment} (h : x.Step a segment b) (path : List PathSegment) :
    x.registry.typeAlong a.type (fieldsAlong a.nodes (segment :: path)) =
      x.registry.typeAlong b.type (fieldsAlong b.nodes path) := by
  cases h with
  | item _ => rfl
  | data envelope mem name _ =>
    rw [fieldsAlong_key mem, name]
    exact Registry.typeAlong_cons (by rw [Registry.targetType?_of_envelope envelope, if_pos rfl]) _
  | relation envelope described allows _ _ _ =>
    rw [fieldsAlong_key allows.mem]
    exact Registry.typeAlong_cons
      (Registry.targetType?_of_field? envelope described allows.found) _

/-- What shaping comes to by a path is shaped as the type of that path. -/
theorem Descends.typeAlong {path : List PathSegment} (h : x.Descends a path b) :
    x.registry.typeAlong a.type (fieldsAlong a.nodes path) = some b.type := by
  induction h with
  | here a => rfl
  | step first _ ih => rw [first.typeAlong, ih]

/-- What is one step down is shaped, and stands one step down in what is shaped. -/
lemma Step.exists_shape {segment : PathSegment} (h : x.Step a segment b) {shaped : Shaped}
    (hshape : x.shape a.type a.value a.nodes = .ok shaped) :
    ∃ own, x.shape b.type b.value b.nodes = .ok own ∧
      ∀ path, shaped.value.at? (segment :: path) = own.value.at? path := by
  cases h with
  | @item type nodes items n v found =>
    obtain ⟨parts, hitems, hparts, hcomposed⟩ := exists_parts_of_shapeValue_array hshape
    rw [← hitems, List.getElem?_map] at found
    obtain ⟨⟨v, own⟩, hn, rfl⟩ := Option.map_eq_some_iff.1 found
    refine ⟨own, hparts _ (List.mem_of_getElem? hn), hcomposed.found (.index n, own) ?_⟩
    exact List.mem_map.2 ⟨((v, own), n), List.mem_zipIdx_iff_getElem?.2 hn, rfl⟩
  | @data type item kind nodes members g v envelope mem name found =>
    rw [shape, shapeValue_of_envelope members envelope] at hshape
    obtain ⟨own, hown, hfound⟩ := exists_part_of_shapeObject hshape mem
    rw [envelopeField_of_data name found] at hown
    exact ⟨own, hown, hfound⟩
  | @relation type nodes t members g f relation v envelope described allows resolver kind found =>
    rw [shape, shapeValue_of_describe members envelope described] at hshape
    obtain ⟨own, hown, hfound⟩ := exists_part_of_shapeObject hshape allows.mem
    rw [rowField_of_relation allows resolver kind found] at hown
    exact ⟨own, hown, hfound⟩

/-- What shaping comes to is shaped, and stands at its path in what is shaped. -/
lemma Descends.exists_shape {path : List PathSegment} (h : x.Descends a path b)
    {shaped : Shaped} (hshape : x.shape a.type a.value a.nodes = .ok shaped) :
    ∃ own, x.shape b.type b.value b.nodes = .ok own ∧
      shaped.value.at? path = some own.value := by
  induction h generalizing shaped with
  | here a => exact ⟨shaped, hshape, by cases shaped.value <;> rfl⟩
  | step first _ ih =>
    obtain ⟨middle, hmiddle, hfirst⟩ := first.exists_shape hshape
    obtain ⟨own, hown, hrest⟩ := ih hmiddle
    exact ⟨own, hown, (hfirst _).trans hrest⟩

end Shaper

end GraphProjection
