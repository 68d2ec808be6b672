import GraphProjection.Proofs.Denied.Shaping

/-!
# Shaped values and their parts

What is shaped of an object is made of what is shaped of its fields, and what is shaped of a list of
what is shaped of its items (`exists_parts_of_shapeObject`, `exists_parts_of_shapeValue_array`).
Each part stands at one step, and the errors of the whole are those of the parts, one part after the
other, each error one step further down (`Shaped.ComposedOf`).  What is said of the paths of errors
is kept from parts to wholes (`ComposedOf.pointing`).  A field of a row that shaping reaches is a
part of a part, and stands at its path in the whole (`exists_own_of_reachesRow`).

`Value.Before` is the order in which the places of a value are passed, from the first field of an
object to the last and from the first item of a list to the last.
-/

namespace GraphProjection

open FieldNode

/-! ## The order of places in a value -/

/-- The place that a path leads to in a value, as the numbers of the members and items that are
passed on the way. -/
def Value.positions : Value → List PathSegment → List Nat
  | .object members, .key name :: path =>
    (Entries.names members).idxOf name ::
      match Entries.get? members name with
      | some v => v.positions path
      | none => []
  | .array items, .index n :: path =>
    n ::
      match items[n]? with
      | some v => v.positions path
      | none => []
  | _, _ => []

/-- One path is passed before another when a value is gone through in depth, in the order of its
members and items. -/
def Value.Before (v : Value) (a b : List PathSegment) : Prop :=
  List.Lex (· < ·) (v.positions a) (v.positions b)

lemma Value.Before.ne {v : Value} {a b : List PathSegment} (h : v.Before a b) : a ≠ b := by
  rintro rfl
  exact List.lex_irrefl (fun n => Nat.lt_irrefl n) _ h

namespace Shaped

/-- A shaped value is made of parts, each of which stands at a step of its own: the errors are those
of the parts in order, seen from one step further up. -/
structure ComposedOf (shaped : Shaped) (parts : List (PathSegment × Shaped)) : Prop where
  errors : shaped.errors = parts.flatMap fun part => part.2.errors.map (.under part.1)
  found : ∀ part ∈ parts, ∀ path,
    shaped.value.at? (part.1 :: path) = part.2.value.at? path
  position : ∀ (i : Nat) part, parts[i]? = some part → ∀ path,
    shaped.value.positions (part.1 :: path) = i :: part.2.value.positions path

/-- Every error points at a null, and the errors are in the order of the places they point at. -/
structure Pointing (shaped : Shaped) : Prop where
  null : ∀ e ∈ shaped.errors, shaped.value.at? e.path = some .null
  order : shaped.errors.Pairwise fun a b => shaped.value.Before a.path b.path

lemma pointing_of_errors_eq_nil {shaped : Shaped} (h : shaped.errors = []) :
    shaped.Pointing := by
  constructor
  · rw [h]
    exact fun e he => absurd he List.not_mem_nil
  · rw [h]
    exact .nil

theorem ComposedOf.pointing {shaped : Shaped} {parts : List (PathSegment × Shaped)}
    (h : shaped.ComposedOf parts) (hparts : ∀ part ∈ parts, part.2.Pointing) :
    shaped.Pointing := by
  have hposition : ∀ part ∈ parts, ∃ i, ∀ path,
      shaped.value.positions (part.1 :: path) = i :: part.2.value.positions path := by
    intro part hpart
    obtain ⟨i, hi⟩ := List.getElem?_of_mem hpart
    exact ⟨i, h.position i part hi⟩
  refine ⟨fun e he => ?_, ?_⟩
  · rw [h.errors] at he
    obtain ⟨part, hpart, he⟩ := List.mem_flatMap.1 he
    obtain ⟨own, hown, rfl⟩ := List.mem_map.1 he
    exact (h.found part hpart own.path).trans ((hparts part hpart).null own hown)
  · rw [h.errors, List.pairwise_flatMap]
    refine ⟨fun part hpart => ?_, ?_⟩
    · -- Within a part, one more step in front leaves the order as it is.
      obtain ⟨i, hi⟩ := hposition part hpart
      refine List.pairwise_map.2 ((hparts part hpart).order.imp fun {a b} hab => ?_)
      show List.Lex (· < ·) (shaped.value.positions (part.1 :: a.path))
        (shaped.value.positions (part.1 :: b.path))
      rw [hi, hi]
      exact .cons hab
    · rw [List.pairwise_iff_getElem]
      intro i j hi hj hij a ha b hb
      obtain ⟨a, -, rfl⟩ := List.mem_map.1 ha
      obtain ⟨b, -, rfl⟩ := List.mem_map.1 hb
      show List.Lex (· < ·) (shaped.value.positions (parts[i].1 :: a.path))
        (shaped.value.positions (parts[j].1 :: b.path))
      rw [h.position i _ (List.getElem?_eq_getElem hi),
        h.position j _ (List.getElem?_eq_getElem hj)]
      exact .rel hij

end Shaped

namespace Shaper

variable {x : Shaper} {type : String} {nodes : List FieldNode}

/-! ## What is shaped is made of parts -/

/-- What is shaped of fields, with each field and under its key. -/
lemma exists_parts_of_shapeFields {shape : ResponseField → ShapeResult}
    {fields : List ResponseField} {members : Row} {errors : List FieldError}
    (h : shapeFields shape fields = .ok (members, errors)) :
    ∃ parts : List (ResponseField × Shaped), parts.map (·.1) = fields ∧
      (∀ part ∈ parts, shape part.1 = .ok part.2) ∧
      members = parts.map (fun part => (part.1.key, part.2.value)) ∧
      errors = parts.flatMap fun part => part.2.errors.map (.under (.key part.1.key)) := by
  induction fields generalizing members errors with
  | nil =>
    cases h
    exact ⟨[], rfl, fun part hpart => absurd hpart List.not_mem_nil, rfl, rfl⟩
  | cons g rest ih =>
    rw [shapeFields] at h
    split at h
    · cases h
    · next own hown =>
      split at h
      · cases h
      · next others later hrest =>
        cases h
        obtain ⟨parts, hfields, hparts, rfl, rfl⟩ := ih hrest
        refine ⟨(g, own) :: parts, ?_, List.forall_mem_cons.2 ⟨hown, hparts⟩, rfl, rfl⟩
        rw [List.map_cons, hfields]

/-- What is shaped of items, with each item and under its position. -/
lemma exists_parts_of_shapeItems {items values : List Value} {start : Nat}
    {errors : List FieldError}
    (h : x.shapeItems items start type nodes = .ok (values, errors)) :
    ∃ parts : List (Value × Shaped), parts.map (·.1) = items ∧
      (∀ part ∈ parts, x.shapeValue part.1 type nodes = .ok part.2) ∧
      values = parts.map (·.2.value) ∧
      errors = (parts.zipIdx start).flatMap fun part =>
        part.1.2.errors.map (.under (.index part.2)) := by
  induction items generalizing start values errors with
  | nil =>
    rw [shapeItems] at h
    cases h
    exact ⟨[], rfl, fun part hpart => absurd hpart List.not_mem_nil, rfl, rfl⟩
  | cons v rest ih =>
    rw [shapeItems] at h
    split at h
    · cases h
    · next own hown =>
      split at h
      · cases h
      · next others later hrest =>
        cases h
        obtain ⟨parts, hitems, hparts, rfl, rfl⟩ := ih hrest
        refine ⟨(v, own) :: parts, ?_, List.forall_mem_cons.2 ⟨hown, hparts⟩, rfl, rfl⟩
        rw [List.map_cons, hitems]

/-- A shaped object is made of its fields. -/
theorem exists_parts_of_shapeObject {shape : ResponseField → ShapeResult} {shaped : Shaped}
    (h : shapeObject shape nodes = .ok shaped) :
    ∃ parts : List (ResponseField × Shaped), parts.map (·.1) = grouped nodes ∧
      (∀ part ∈ parts, shape part.1 = .ok part.2) ∧
      shaped.ComposedOf (parts.map fun part => (.key part.1.key, part.2)) := by
  rw [shapeObject] at h
  split at h
  · cases h
  · next members errors hfields =>
    cases h
    obtain ⟨parts, hgroups, hparts, rfl, rfl⟩ := exists_parts_of_shapeFields hfields
    have hkeys : (parts.map fun part => part.1.key).Nodup := by
      have hnodup := nodup_key_grouped nodes
      rw [← hgroups, List.map_map] at hnodup
      exact hnodup
    -- Response keys are distinct, so looking up a key finds the member that was made for it.
    have hget : ∀ part ∈ parts, Entries.get?
        (parts.map fun part => (part.1.key, part.2.value)) part.1.key = some part.2.value :=
      fun part hpart => get?_map_of_nodup (fun part : ResponseField × Shaped => part.2.value)
        hkeys hpart
    refine ⟨parts, hgroups, hparts, ?_, ?_, ?_⟩
    · rw [List.flatMap_map]
    · intro part hpart path
      obtain ⟨part, hmem, rfl⟩ := List.mem_map.1 hpart
      simp only [Value.at?, hget part hmem]
    · intro i part hpart path
      rw [List.getElem?_map] at hpart
      obtain ⟨part, hmem, rfl⟩ := Option.map_eq_some_iff.1 hpart
      have hnames : Entries.names (parts.map fun part => (part.1.key, part.2.value)) =
          parts.map fun part => part.1.key := by
        rw [Entries.names, List.map_map]
        rfl
      obtain ⟨hi, hpart⟩ := List.getElem?_eq_some_iff.1 hmem
      have hindex : (parts.map fun part => part.1.key).idxOf part.1.key = i := by
        have hlength : i < (parts.map fun part => part.1.key).length := by simpa using hi
        have hkey : (parts.map fun part => part.1.key)[i] = part.1.key := by
          rw [List.getElem_map, hpart]
        rw [← hkey]
        exact hkeys.idxOf_getElem i hlength
      simp only [Value.positions, hnames, hindex, hget part (List.mem_of_getElem? hmem)]

/-- A field of an object is shaped, and stands under its key. -/
lemma exists_part_of_shapeObject {shape : ResponseField → ShapeResult} {shaped : Shaped}
    (h : shapeObject shape nodes = .ok shaped) {g : ResponseField}
    (hg : g ∈ grouped nodes) :
    ∃ own, shape g = .ok own ∧
      ∀ path, shaped.value.at? (.key g.key :: path) = own.value.at? path := by
  obtain ⟨parts, hgroups, hparts, hcomposed⟩ := exists_parts_of_shapeObject h
  rw [← hgroups] at hg
  obtain ⟨⟨g, own⟩, hmem, rfl⟩ := List.mem_map.1 hg
  exact ⟨own, hparts _ hmem, hcomposed.found _ (List.mem_map_of_mem hmem)⟩

/-- A shaped list is made of its items. -/
theorem exists_parts_of_shapeValue_array {items : List Value} {shaped : Shaped}
    (h : x.shapeValue (.array items) type nodes = .ok shaped) :
    ∃ parts : List (Value × Shaped), parts.map (·.1) = items ∧
      (∀ part ∈ parts, x.shapeValue part.1 type nodes = .ok part.2) ∧
      shaped.ComposedOf (parts.zipIdx.map fun part => (.index part.2, part.1.2)) := by
  rw [shapeValue] at h
  split at h
  · cases h
  · next values errors hitems =>
    cases h
    obtain ⟨parts, hvalues, hparts, rfl, rfl⟩ := exists_parts_of_shapeItems hitems
    refine ⟨parts, hvalues, hparts, ?_, ?_, ?_⟩
    · rw [List.flatMap_map]
    · intro part hpart path
      obtain ⟨⟨part, i⟩, hmem, rfl⟩ := List.mem_map.1 hpart
      have hi : parts[i]? = some part := List.mem_zipIdx_iff_getElem?.1 hmem
      simp only [Value.at?, List.getElem?_map, hi, Option.map_some]
    · intro i part hpart path
      rw [List.getElem?_map, List.getElem?_zipIdx] at hpart
      cases hi : parts[i]? with
      | none => simp [hi] at hpart
      | some found =>
        rw [hi] at hpart
        cases hpart
        simp [Value.positions, hi]

/-- A member leaves errors only if it is there. -/
lemma shapeMember_cases {members : Row} {name : String} {own : Shaped}
    (h : shapeMember (x.shapeMembers members) name type nodes = .ok own) :
    own.errors = [] ∨ ∃ v, members.get? name = some v ∧ x.shapeValue v type nodes = .ok own := by
  rw [shapeMember, get?_shapeMembers] at h
  cases hv : members.get? name with
  | none =>
    rw [hv] at h
    cases h
    exact .inl rfl
  | some v =>
    rw [hv] at h
    exact .inr ⟨v, rfl, h⟩

lemma shapeValue_of_envelope {item : String} {kind : PageKind} (members : Row)
    (henvelope : x.registry.envelope? type = some (kind, item)) :
    x.shapeValue (.object members) type nodes =
      shapeObject (envelopeField type kind item members (x.shapeMembers members)) nodes := by
  rw [shapeValue, shapeMembersAs, henvelope]

lemma shapeValue_of_describe {t : OutputType} (members : Row)
    (henvelope : x.registry.envelope? type = none)
    (ht : x.registry.describe type = .ok (some t)) :
    x.shapeValue (.object members) type nodes =
      shapeObject (x.rowField t members (x.shapeMembers members)) nodes := by
  rw [shapeValue, shapeMembersAs, henvelope]
  simp only [ht]

/-- A field that is asked of a row is shaped, and stands behind the path by which shaping reaches
the row, under its key. -/
theorem exists_own_of_reachesRow {v : Value} {path : List PathSegment} {t : OutputType}
    {inner : List FieldNode} {row : Row} (hreaches : x.ReachesRow type nodes v path t inner row)
    {g : ResponseField} (hg : g ∈ grouped inner) {shaped : Shaped}
    (h : x.shapeValue v type nodes = .ok shaped) :
    ∃ own, x.rowField t row (x.shapeMembers row) g = .ok own ∧
      shaped.value.at? (path ++ [.key g.key]) = some own.value := by
  -- Each step down the value is a step down the answer, at the same segment of the path.
  induction hreaches generalizing shaped with
  | @here type nodes t row envelope described =>
    rw [shapeValue_of_describe row envelope described] at h
    obtain ⟨own, hown, hat⟩ := exists_part_of_shapeObject h hg
    exact ⟨own, hown, (hat []).trans (Value.at?_nil own.value)⟩
  | @item type nodes inner t row path items n v found _ ih =>
    obtain ⟨parts, hitems, hparts, hcomposed⟩ := exists_parts_of_shapeValue_array h
    rw [← hitems, List.getElem?_map] at found
    obtain ⟨⟨v, part⟩, hn, rfl⟩ := Option.map_eq_some_iff.1 found
    obtain ⟨own, hown, hat⟩ := ih hg (hparts _ (List.mem_of_getElem? hn))
    have hstep := hcomposed.found (.index n, part)
      (List.mem_map.2 ⟨((v, part), n), List.mem_zipIdx_iff_getElem?.2 hn, rfl⟩)
    exact ⟨own, hown, (hstep _).trans hat⟩
  | @data type item kind nodes inner t row members path g' v envelope mem name found _ ih =>
    rw [shapeValue_of_envelope members envelope] at h
    obtain ⟨part, hpart, hstep⟩ := exists_part_of_shapeObject h mem
    rw [envelopeField_of_data name found] at hpart
    obtain ⟨own, hown, hat⟩ := ih hg hpart
    exact ⟨own, hown, (hstep _).trans hat⟩
  | @relation type nodes inner t target row members path g' f' relation v envelope described
      allows resolver kind found _ ih =>
    rw [shapeValue_of_describe members envelope described] at h
    obtain ⟨part, hpart, hstep⟩ := exists_part_of_shapeObject h allows.mem
    rw [rowField_of_relation allows resolver kind found] at hpart
    obtain ⟨own, hown, hat⟩ := ih hg hpart
    exact ⟨own, hown, (hstep _).trans hat⟩

/-! ## The fields along a path -/

/-- The names of the fields that lead through a response by a path; an item of a list has none. -/
def fieldsAlong : List FieldNode → List PathSegment → List String
  | _, [] => []
  | nodes, .index _ :: path => fieldsAlong nodes path
  | nodes, .key key :: path =>
    match (grouped nodes).find? (·.key == key) with
    | some g => g.node.name :: fieldsAlong g.children path
    | none => []

lemma fieldsAlong_key {g : ResponseField} (hg : g ∈ grouped nodes) (path : List PathSegment) :
    fieldsAlong nodes (.key g.key :: path) = g.node.name :: fieldsAlong g.children path := by
  have hsome : ((grouped nodes).find? (·.key == g.key)).isSome = true :=
    List.find?_isSome.2 ⟨g, hg, beq_self_eq_true g.key⟩
  obtain ⟨found, hfound⟩ := Option.isSome_iff_exists.1 hsome
  have hkey : found.key = g.key := by simpa using List.find?_some hfound
  have hsame : found = g := List.inj_on_of_nodup_map (nodup_key_grouped nodes)
    (List.mem_of_find?_eq_some hfound) hg hkey
  rw [fieldsAlong, hfound, hsame]

end Shaper

end GraphProjection
