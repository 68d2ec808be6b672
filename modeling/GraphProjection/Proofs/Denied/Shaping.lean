import GraphProjection.Proofs.Isolation
import GraphProjection.Proofs.Siblings
import GraphProjection.Proofs.Sufficiency

/-!
# Denied fields of shaped values

A field that its privacy rule denies is null, and nothing of its row shows in the null.

`Shaper.AlikeBut` compares two values of one shape that may differ, at any depth, in entries of rows
that no allowed field reads.  Where a row holds further rows in one of its entries, something can be
asked of the way there, and the comparison leaves open what (`through`).  Values are shaped alike if
the entries on the way are read by relations only (`Shaper.SeenByRelations`); the resolver of
another field would see through them.

`Shaper.ReachesRow` says which rows shaping comes to, and by which path of the response.
`Shaped.SilentAt` is what shaping leaves at the path of a denied field: null without an error.
-/

namespace GraphProjection

open FieldNode

/-! ## Fields that are allowed and denied -/

/-- The entry of a row in which the value of a field is looked up. -/
def FieldDescriptor.entry (f : FieldDescriptor) : String :=
  match f.kind with
  | .column column => column
  | .computed outputAlias _ => outputAlias
  | .relation _ | .notSelectable => f.name

/-- A field of a type is answered under a response key. -/
structure OutputType.Answers (t : OutputType) (nodes : List FieldNode) (g : ResponseField)
    (f : FieldDescriptor) : Prop where
  mem : g ∈ grouped nodes
  name : g.node.name ≠ typename
  found : t.field? g.node.name = some f

namespace Shaper

variable (x : Shaper)

/-- A field is answered, and its privacy rule allows it. -/
structure Allows (t : OutputType) (nodes : List FieldNode) (g : ResponseField)
    (f : FieldDescriptor) : Prop extends t.Answers nodes g f where
  allowed : f.allows g.node.arguments x.services = true

/-- A field is answered, and its privacy rule denies it. -/
structure Denies (t : OutputType) (nodes : List FieldNode) (g : ResponseField)
    (f : FieldDescriptor) : Prop extends t.Answers nodes g f where
  denied : f.allows g.node.arguments x.services = false

/-- Every field that is answered and reads an entry of a row is denied: no allowed field looks the
entry up, and none has a resolver, which would see the whole row. -/
def Hides (t : OutputType) (nodes : List FieldNode) (name : String) : Prop :=
  ∀ g f, x.Allows t nodes g f → f.resolver = none ∧ f.entry ≠ name

/-- A relation that is allowed leads to the rows in an entry. -/
def ReadByRelation (t : OutputType) (nodes : List FieldNode) (name : String) : Prop :=
  ∃ g f, x.Allows t nodes g f ∧ f.resolver = none ∧ f.entry = name ∧ f.relation?.isSome = true

/-- Relations are all that sees the rows in an entry: no other allowed field looks the entry up, and
none has a resolver. -/
def SeenByRelations (t : OutputType) (nodes : List FieldNode) (name : String) : Prop :=
  ∀ g f, x.Allows t nodes g f →
    f.resolver = none ∧ (f.entry = name → f.relation?.isSome = true)

/-! ## Values that are alike but for what is denied -/

/-- Two values of one shape differ in entries of rows that are hidden, at any depth.  The entries of
a row that are read have the same values, or values that are alike in their turn for every relation
that reads them; those are the entries of which `through` is asked. -/
inductive AlikeBut (through : OutputType → List FieldNode → String → Prop) :
    String → List FieldNode → Value → Value → Prop
  | same (type : String) (nodes : List FieldNode) (v : Value) : AlikeBut through type nodes v v
  | array {type : String} {nodes : List FieldNode} {items others : List Value}
      (length : items.length = others.length)
      (items_alike : ∀ (n : Nat) (v w : Value), items[n]? = some v → others[n]? = some w →
        AlikeBut through type nodes v w) :
      AlikeBut through type nodes (.array items) (.array others)
  | envelope {type item : String} {kind : PageKind} {nodes : List FieldNode} {a b : Row}
      (envelope : x.registry.envelope? type = some (kind, item))
      (others : ∀ name, name ≠ "data" → a.get? name = b.get? name)
      (there : (a.get? "data").isSome = (b.get? "data").isSome)
      (data : ∀ g ∈ grouped nodes, g.node.name = "data" → ∀ v w, a.get? "data" = some v →
        b.get? "data" = some w → AlikeBut through item g.children v w) :
      AlikeBut through type nodes (.object a) (.object b)
  | row {type : String} {nodes : List FieldNode} {t : OutputType} {a b : Row}
      (deeper : String → Prop) (envelope : x.registry.envelope? type = none)
      (described : x.registry.describe type = .ok (some t))
      (differ : ∃ name, a.get? name ≠ b.get? name)
      (entries : ∀ name, ¬ deeper name → a.get? name = b.get? name ∨ x.Hides t nodes name)
      (seen : ∀ name, deeper name → through t nodes name)
      (there : ∀ name, deeper name → (a.get? name).isSome = (b.get? name).isSome)
      (below : ∀ g f, x.Allows t nodes g f → f.relation?.isSome = true → deeper f.entry →
        ∀ v w, a.get? f.entry = some v → b.get? f.entry = some w →
          AlikeBut through f.type.namedType g.children v w) :
      AlikeBut through type nodes (.object a) (.object b)

variable {x} {t : OutputType} {nodes : List FieldNode}

/-- What a field without a resolver makes of its row depends on its entry. -/
lemma fieldValue_of_entry {a b : Row} {g : ResponseField} {f : FieldDescriptor}
    (hresolver : f.resolver = none)
    (hentry : f.relation? = none → a.get? f.entry = b.get? f.entry)
    (hmember : f.relation?.isSome = true →
      shapeMember (x.shapeMembers a) f.entry f.type.namedType g.children =
        shapeMember (x.shapeMembers b) f.entry f.type.namedType g.children) :
    x.fieldValue f a (x.shapeMembers a) g = x.fieldValue f b (x.shapeMembers b) g := by
  unfold fieldValue
  rw [hresolver]
  unfold FieldDescriptor.entry FieldDescriptor.relation? at hentry hmember
  cases hkind : f.kind with
  | column column => simp only [hkind] at hentry ⊢; rw [hentry trivial]
  | computed outputAlias e => simp only [hkind] at hentry ⊢; rw [hentry trivial]
  | relation relation => simp only [hkind] at hmember ⊢; rw [hmember rfl]
  | notSelectable => simp only [hkind] at hentry ⊢; rw [hentry trivial]

lemma fieldValue_of_denied {f : FieldDescriptor} {g : ResponseField}
    (h : f.allows g.node.arguments x.services = false) (row : Row) (below : Below) :
    x.fieldValue f row below g = .ok (.pure .null) := by
  rw [fieldValue, h]
  rfl

/-- Rows are shaped alike when every field that is allowed has no resolver and reads an entry that
is the same in both, or leads to rows that are shaped alike. -/
theorem shapeObject_rowField_of_allows {a b : Row}
    (hresolver : ∀ g f, x.Allows t nodes g f → f.resolver = none)
    (hentry : ∀ g f, x.Allows t nodes g f → f.relation? = none →
      a.get? f.entry = b.get? f.entry)
    (hmember : ∀ g f, x.Allows t nodes g f → f.relation?.isSome = true →
      shapeMember (x.shapeMembers a) f.entry f.type.namedType g.children =
        shapeMember (x.shapeMembers b) f.entry f.type.namedType g.children) :
    shapeObject (x.rowField t a (x.shapeMembers a)) nodes =
      shapeObject (x.rowField t b (x.shapeMembers b)) nodes := by
  refine shapeObject_congr fun g hg => ?_
  rw [rowField, rowField]
  by_cases htypename : g.node.name = typename
  · rw [if_pos htypename, if_pos htypename]
  · rw [if_neg htypename, if_neg htypename]
    cases hf : t.field? g.node.name with
    | none => rfl
    | some f =>
      simp only
      cases hallowed : f.allows g.node.arguments x.services with
      | false => rw [fieldValue_of_denied hallowed, fieldValue_of_denied hallowed]
      | true =>
        have hallows : x.Allows t nodes g f := ⟨⟨hg, htypename, hf⟩, hallowed⟩
        exact fieldValue_of_entry (hresolver g f hallows) (hentry g f hallows)
          (hmember g f hallows)

/-- Values that differ in hidden entries are shaped alike when, on the way to those, entries are
read by relations only. -/
theorem shapeValue_of_alikeBut {type : String} {v w : Value}
    (h : x.AlikeBut x.SeenByRelations type nodes v w) :
    x.shapeValue v type nodes = x.shapeValue w type nodes := by
  induction h with
  | same type nodes v => rfl
  | @array type nodes items others length _ ih =>
    rw [shapeValue, shapeValue, shapeItems_congr length ih]
  | @envelope type item kind nodes a b envelope others there _ ih =>
    rw [shapeValue, shapeValue, shapeMembersAs, shapeMembersAs, envelope]
    refine shapeObject_congr fun g hg => ?_
    rw [envelopeField, envelopeField]
    by_cases hdata : g.node.name = "data"
    · simp only [hdata, if_true]
      rw [shapeMember_congr there (ih g hg hdata)]
    · simp only [hdata, if_false, others g.node.name hdata]
  | @row type nodes t a b deeper envelope described differ entries seen there _ ih =>
    -- Some entry differs.  Be it hidden or on the way down, no allowed field has a resolver.
    have hresolver : ∀ g f, x.Allows t nodes g f → f.resolver = none := by
      obtain ⟨name, hne⟩ := differ
      intro g f hallows
      by_cases hdeeper : deeper name
      · exact (seen name hdeeper g f hallows).1
      · exact ((entries name hdeeper).resolve_left hne g f hallows).1
    have hkept : ∀ g f, x.Allows t nodes g f → ¬ deeper f.entry →
        a.get? f.entry = b.get? f.entry := fun g f hallows hdeeper =>
      (entries f.entry hdeeper).resolve_right fun hhides => (hhides g f hallows).2 rfl
    rw [shapeValue, shapeValue, shapeMembersAs, shapeMembersAs, envelope]
    simp only [described]
    refine shapeObject_rowField_of_allows hresolver (fun g f hallows hnone => ?_)
      fun g f hallows hrelation => ?_
    · refine hkept g f hallows fun hdeeper => ?_
      have hrelation := (seen f.entry hdeeper g f hallows).2 rfl
      rw [hnone] at hrelation
      cases hrelation
    · by_cases hdeeper : deeper f.entry
      · exact shapeMember_congr (there f.entry hdeeper) (ih g f hallows hrelation hdeeper)
      · rw [shapeMember, shapeMember, get?_shapeMembers, get?_shapeMembers,
          hkept g f hallows hdeeper]

end Shaper

/-! ## What stands at a path -/

/-- What a path leads to in a value. -/
def Value.at? : Value → List PathSegment → Option Value
  | v, [] => some v
  | .object members, .key name :: path =>
    match Entries.get? members name with
    | some v => v.at? path
    | none => none
  | .array items, .index n :: path =>
    match items[n]? with
    | some v => v.at? path
    | none => none
  | _, _ :: _ => none

lemma Value.at?_nil (v : Value) : v.at? [] = some v := by
  cases v <;> rfl

lemma Value.at?_object (members : Row) (name : String) (path : List PathSegment) :
    (Value.object members).at? (.key name :: path) = (members.get? name).bind (·.at? path) := by
  rw [Value.at?]
  cases members.get? name <;> rfl

lemma Value.at?_array (items : List Value) (n : Nat) (path : List PathSegment) :
    (Value.array items).at? (.index n :: path) = (items[n]?).bind (·.at? path) := by
  rw [Value.at?]
  cases items[n]? <;> rfl

/-- A path is followed one step after the other. -/
lemma Value.at?_cons (v : Value) (segment : PathSegment) (path : List PathSegment) :
    v.at? (segment :: path) = (v.at? [segment]).bind (·.at? path) := by
  cases v with
  | object members =>
    cases segment with
    | key name => simp only [Value.at?_object, Option.bind_assoc, Value.at?_nil, Option.bind_some]
    | index n => rfl
  | array items =>
    cases segment with
    | key name => rfl
    | index n => simp only [Value.at?_array, Option.bind_assoc, Value.at?_nil, Option.bind_some]
  | null => cases segment <;> rfl
  | bool _ => cases segment <;> rfl
  | int _ => cases segment <;> rfl
  | double _ => cases segment <;> rfl
  | string _ => cases segment <;> rfl

/-- A path leads to null in a shaped value, and no error has it in front of its own path. -/
structure Shaped.SilentAt (shaped : Shaped) (path : List PathSegment) : Prop where
  null : shaped.value.at? path = some .null
  silent : ∀ e ∈ shaped.errors, ¬ path <+: e.path

lemma Shaped.silentAt_pure_null : (Shaped.pure .null).SilentAt [] where
  null := rfl
  silent _ he := absurd he List.not_mem_nil

namespace Shaper

variable {x : Shaper} {path : List PathSegment}

/-- The errors of an object are those of its fields, under their keys. -/
lemma exists_of_mem_shapeFields {shape : ResponseField → ShapeResult}
    {fields : List ResponseField} {members : Row} {errors : List FieldError}
    (h : shapeFields shape fields = .ok (members, errors)) {e : FieldError} (he : e ∈ errors) :
    ∃ g ∈ fields, ∃ own, shape g = .ok own ∧
      ∃ below ∈ own.errors, e = below.under (.key g.key) := by
  induction fields generalizing members errors with
  | nil =>
    cases h
    cases he
  | cons g rest ih =>
    rw [shapeFields] at h
    split at h
    · cases h
    · next own hown =>
      split at h
      · cases h
      · next others later hrest =>
        cases h
        rcases List.mem_append.1 he with he | he
        · obtain ⟨below, hbelow, rfl⟩ := List.mem_map.1 he
          exact ⟨g, List.mem_cons_self, own, hown, below, hbelow, rfl⟩
        · obtain ⟨g', hg', hfound⟩ := ih hrest he
          exact ⟨g', List.mem_cons_of_mem _ hg', hfound⟩

/-- An object is silent where one of its fields is. -/
lemma silentAt_of_shapeObject {shape : ResponseField → ShapeResult} {nodes : List FieldNode}
    {shaped : Shaped} (h : shapeObject shape nodes = .ok shaped) {g : ResponseField}
    (hg : g ∈ grouped nodes)
    (hsilent : ∀ own, shape g = .ok own → own.SilentAt path) :
    shaped.SilentAt (.key g.key :: path) := by
  rw [shapeObject] at h
  split at h
  · cases h
  · next members errors hfields =>
    cases h
    obtain ⟨own, hown, hkey⟩ := get?_of_shapeFields (nodup_key_grouped nodes) hfields hg
    refine ⟨?_, fun e he hprefix => ?_⟩
    · simp only [Value.at?, hkey]
      exact (hsilent own hown).null
    · -- An error behind the key of the field is an error of the field, no two keys being the same.
      obtain ⟨g', hg', own', hown', below, hbelow, rfl⟩ := exists_of_mem_shapeFields hfields he
      obtain ⟨hsame, hrest⟩ := List.cons_prefix_cons.1 hprefix
      have hkeys : g = g' := List.inj_on_of_nodup_map (nodup_key_grouped nodes) hg hg'
        (PathSegment.key.inj hsame)
      subst hkeys
      exact (hsilent own' hown').silent below hbelow hrest

/-- The errors of items are those of each, under its position. -/
lemma exists_of_mem_shapeItems {type : String} {nodes : List FieldNode} {vs values : List Value}
    {start : Nat} {errors : List FieldError}
    (h : shapeItems x vs start type nodes = .ok (values, errors)) {e : FieldError}
    (he : e ∈ errors) :
    ∃ n v own, vs[n]? = some v ∧ x.shapeValue v type nodes = .ok own ∧
      ∃ below ∈ own.errors, e = below.under (.index (start + n)) := by
  induction vs generalizing start values errors with
  | nil =>
    rw [shapeItems] at h
    cases h
    cases he
  | cons first rest ih =>
    rw [shapeItems] at h
    split at h
    · cases h
    · next own hown =>
      split at h
      · cases h
      · next others later hrest =>
        cases h
        rcases List.mem_append.1 he with he | he
        · obtain ⟨below, hbelow, rfl⟩ := List.mem_map.1 he
          exact ⟨0, first, own, rfl, hown, below, hbelow, rfl⟩
        · obtain ⟨n, v, own', hv, hown', below, hbelow, rfl⟩ := ih hrest he
          refine ⟨n + 1, v, own', hv, hown', below, hbelow, ?_⟩
          rw [Nat.add_assoc start 1 n, Nat.add_comm 1 n]

/-- A list is silent where one of its items is. -/
lemma silentAt_of_shapeItems {type : String} {nodes : List FieldNode} {vs values : List Value}
    {errors : List FieldError} (h : shapeItems x vs 0 type nodes = .ok (values, errors)) {n : Nat}
    {v : Value} (hv : vs[n]? = some v)
    (hsilent : ∀ own, x.shapeValue v type nodes = .ok own → own.SilentAt path) :
    Shaped.SilentAt ⟨.array values, errors⟩ (.index n :: path) := by
  refine ⟨?_, fun e he hprefix => ?_⟩
  · obtain ⟨hn, rfl⟩ := List.getElem?_eq_some_iff.1 hv
    obtain ⟨hlength, hitems⟩ := List.forall₂_iff_get.1 (shapeItems_eq_ok h)
    obtain ⟨own, hown, hvalue⟩ := hitems n hn (hlength ▸ hn)
    have hfound : values[n]? = some own.value :=
      (List.getElem?_eq_getElem (hlength ▸ hn)).trans (congrArg some hvalue)
    simp only [Value.at?, hfound]
    exact (hsilent own hown).null
  · obtain ⟨m, w, own, hw, hown, below, hbelow, rfl⟩ := exists_of_mem_shapeItems h he
    obtain ⟨hsame, hrest⟩ := List.cons_prefix_cons.1 hprefix
    have hposition : n = m := (PathSegment.index.inj hsame).trans (Nat.zero_add m)
    subst hposition
    cases hv.symm.trans hw
    exact (hsilent own hown).silent below hbelow hrest

/-! ## Rows that are shaped -/

/-- The data of an envelope are shaped as its items. -/
lemma envelopeField_of_data {type item : String} {kind : PageKind} {members : Row}
    {g : ResponseField} {v : Value} (hname : g.node.name = "data")
    (hfound : members.get? "data" = some v) :
    envelopeField type kind item members (x.shapeMembers members) g =
      x.shapeValue v item g.children := by
  have htypename : g.node.name ≠ typename := by rw [hname]; decide
  rw [envelopeField, if_neg htypename, if_pos hname, shapeMember, get?_shapeMembers, hfound]
  rfl

/-- What stands in the slot of a relation that is allowed is shaped as its named type. -/
lemma rowField_of_relation {t : OutputType} {nodes : List FieldNode} {members : Row}
    {g : ResponseField} {f : FieldDescriptor} {relation : RelationDescriptor} {v : Value}
    (hallows : x.Allows t nodes g f) (hresolver : f.resolver = none)
    (hkind : f.kind = .relation relation) (hfound : members.get? f.name = some v) :
    x.rowField t members (x.shapeMembers members) g =
      x.shapeValue v f.type.namedType g.children := by
  rw [rowField, if_neg hallows.name, hallows.found]
  simp [fieldValue, hallows.allowed, hresolver, hkind, shapeMember, get?_shapeMembers, hfound]

/-- Shaping a value comes to a row by a path of the response: through the items of lists, the data
of envelopes, and relations that are allowed.  Of the row it is known as what type it is shaped and
which fields are asked of it. -/
inductive ReachesRow (x : Shaper) : String → List FieldNode → Value →
    List PathSegment → OutputType → List FieldNode → Row → Prop
  | here {type : String} {nodes : List FieldNode} {t : OutputType} {row : Row}
      (envelope : x.registry.envelope? type = none)
      (described : x.registry.describe type = .ok (some t)) :
      ReachesRow x type nodes (.object row) [] t nodes row
  | item {type : String} {nodes inner : List FieldNode} {t : OutputType} {row : Row}
      {path : List PathSegment} {items : List Value} {n : Nat} {v : Value}
      (found : items[n]? = some v) (below : ReachesRow x type nodes v path t inner row) :
      ReachesRow x type nodes (.array items) (.index n :: path) t inner row
  | data {type item : String} {kind : PageKind} {nodes inner : List FieldNode} {t : OutputType}
      {row members : Row} {path : List PathSegment} {g : ResponseField} {v : Value}
      (envelope : x.registry.envelope? type = some (kind, item)) (mem : g ∈ grouped nodes)
      (name : g.node.name = "data") (found : members.get? "data" = some v)
      (below : ReachesRow x item g.children v path t inner row) :
      ReachesRow x type nodes (.object members) (.key g.key :: path) t inner row
  | relation {type : String} {nodes inner : List FieldNode} {t target : OutputType}
      {row members : Row} {path : List PathSegment} {g : ResponseField} {f : FieldDescriptor}
      {relation : RelationDescriptor} {v : Value}
      (envelope : x.registry.envelope? type = none)
      (described : x.registry.describe type = .ok (some t)) (allows : x.Allows t nodes g f)
      (resolver : f.resolver = none) (kind : f.kind = .relation relation)
      (found : members.get? f.name = some v)
      (below : ReachesRow x f.type.namedType g.children v path target inner row) :
      ReachesRow x type nodes (.object members) (.key g.key :: path) target inner row

/-- A field that is denied is null wherever it is asked for, and without an error. -/
lemma silentAt_of_denies {type : String} {nodes inner : List FieldNode} {v : Value}
    {t : OutputType} {row : Row} (hreaches : x.ReachesRow type nodes v path t inner row)
    {g : ResponseField} {f : FieldDescriptor} (hdenies : x.Denies t inner g f) {shaped : Shaped}
    (h : x.shapeValue v type nodes = .ok shaped) :
    shaped.SilentAt (path ++ [.key g.key]) := by
  -- The induction is on the way to the row; each of its steps puts one segment in front of the
  -- path.
  induction hreaches generalizing shaped with
  | @here type nodes t row envelope described =>
    rw [shapeValue, shapeMembersAs, envelope] at h
    simp only [described] at h
    refine silentAt_of_shapeObject h hdenies.mem fun own hown => ?_
    rw [rowField, if_neg hdenies.name, hdenies.found] at hown
    simp only [fieldValue_of_denied hdenies.denied] at hown
    cases hown
    exact Shaped.silentAt_pure_null
  | item found _ ih =>
    rw [shapeValue] at h
    split at h
    · cases h
    · next values errors hitems =>
      cases h
      exact silentAt_of_shapeItems hitems found fun own hown => ih hdenies hown
  | @data type item kind nodes inner t row members path g' v envelope mem name found _ ih =>
    rw [shapeValue, shapeMembersAs, envelope] at h
    refine silentAt_of_shapeObject h mem fun own hown => ih hdenies ?_
    rwa [envelopeField_of_data name found] at hown
  | @relation type nodes inner t target row members path g' f' relation v envelope described
      allows resolver kind found _ ih =>
    rw [shapeValue, shapeMembersAs, envelope] at h
    simp only [described] at h
    refine silentAt_of_shapeObject h allows.mem fun own hown => ih hdenies ?_
    rwa [rowField_of_relation allows resolver kind found] at hown

end Shaper

end GraphProjection
