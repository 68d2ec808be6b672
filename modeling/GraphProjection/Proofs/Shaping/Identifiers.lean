import GraphProjection.Proofs.Shaping.Parts
import GraphProjection.Proofs.Sufficiency

/-!
# Identifiers are text

A value of the type `ID` is to be shown as text.  What that means is said without the conversion
that does it: no number is found at any place of nested lists (`Value.Numberless`), and the value
that is shown spells the value that stands in the row, number by number (`Value.Spells`).  The
conversion has both (`spells_idText`, `numberless_idText`), and it leaves a value as it is when
there is no number to spell (`idText_eq_self`).

Shaping converts what it reads in the entry of a row, be it that of a column, of an expression or of
a field that is not selectable.  It does not convert what a resolver gives: that is shown as it is,
which is right only if no number is found in it.

Main statement: **`identifies_iff_of_shape`**.
-/

namespace GraphProjection

open FieldNode

namespace Value

/-! ## Spelling -/

/-- A value that is a number. -/
def IsNumber : Value → Prop
  | .int _ | .double _ => True
  | _ => False

/-- What stands at a place of nested lists, given by the positions that lead to it. -/
def itemAt? (v : Value) (positions : List Nat) : Option Value := v.at? (positions.map .index)

/-- No number is found in nested lists, at any depth. -/
def Numberless (v : Value) : Prop := ∀ positions n, v.itemAt? positions = some n → ¬ n.IsNumber

/-- A value spells another one: each number, in nested lists at any depth, is replaced by a string
with its text, and nothing else is changed. -/
inductive Spells : Value → Value → Prop
  | whole (n : Int) : Spells (.int n) (.string (toString n))
  | fractional (d : Binary64) : Spells (.double d) (.string (Value.double d).text)
  | items {vs ws : List Value} (each : List.Forall₂ Spells vs ws) : Spells (.array vs) (.array ws)
  | other {v : Value} (number : ¬ v.IsNumber) (list : ∀ items, v ≠ .array items) : Spells v v

/-- The value that is shown identifies by text what the other one does. -/
structure Identifies (shown v : Value) : Prop where
  numberless : shown.Numberless
  spells : v.Spells shown

lemma itemAt?_nil (v : Value) : v.itemAt? [] = some v := v.at?_nil

lemma itemAt?_array (items : List Value) (n : Nat) (positions : List Nat) :
    (Value.array items).itemAt? (n :: positions) = (items[n]?).bind (·.itemAt? positions) :=
  Value.at?_array items n _

lemma text_int (n : Int) : (Value.int n).text = toString n := by
  cases n with
  | ofNat n => rfl
  | negSucc n =>
    show String.ofList (['-'] ++ Nat.toDigits 10 (n + 1)) =
      "-" ++ String.ofList (Nat.toDigits 10 (n + 1))
    rw [String.ofList_append]

/-! ## The conversion spells -/

lemma idTexts_eq_map (items : List Value) : Value.idTexts items = items.map Value.idText := by
  induction items with
  | nil => rfl
  | cons v rest ih => rw [Value.idTexts, ih, List.map_cons]

mutual

theorem spells_idText : (v : Value) → v.Spells v.idText
  | .int n => by
    rw [Value.idText, text_int]
    exact .whole n
  | .double d => .fractional d
  | .array items => .items (spells_idTexts items)
  | .null | .bool _ | .string _ | .object _ => .other id nofun

lemma spells_idTexts : (items : List Value) → List.Forall₂ Spells items (Value.idTexts items)
  | [] => .nil
  | v :: rest => .cons (spells_idText v) (spells_idTexts rest)

end

lemma not_isNumber_idText (v : Value) : ¬ v.idText.IsNumber := by
  cases v <;> simp [Value.idText, IsNumber]

lemma itemAt?_idText (v : Value) (positions : List Nat) :
    v.idText.itemAt? positions = (v.itemAt? positions).map Value.idText := by
  induction positions generalizing v with
  | nil => rw [itemAt?_nil, itemAt?_nil, Option.map_some]
  | cons n positions ih =>
    cases v with
    | array items =>
      rw [Value.idText, itemAt?_array, itemAt?_array, idTexts_eq_map, List.getElem?_map]
      cases items[n]? with
      | none => rfl
      | some v => exact ih v
    | null | bool | int | double | string | object => rfl

theorem numberless_idText (v : Value) : v.idText.Numberless := by
  intro positions n hn
  rw [itemAt?_idText] at hn
  obtain ⟨v, -, rfl⟩ := Option.map_eq_some_iff.1 hn
  exact not_isNumber_idText v

lemma identifies_idText (v : Value) : v.idText.Identifies v :=
  ⟨numberless_idText v, spells_idText v⟩

lemma Numberless.not_isNumber {v : Value} (h : v.Numberless) : ¬ v.IsNumber :=
  h [] v v.itemAt?_nil

lemma Numberless.of_mem {items : List Value} (h : (Value.array items).Numberless) {v : Value}
    (hv : v ∈ items) : v.Numberless := by
  obtain ⟨n, hn⟩ := List.getElem?_of_mem hv
  intro positions m hm
  apply h (n :: positions)
  rw [itemAt?_array, hn]
  exact hm

mutual

/-- Where there is no number there is nothing to convert. -/
theorem idText_eq_self : (v : Value) → v.Numberless → v.idText = v
  | .int _, h | .double _, h => absurd trivial h.not_isNumber
  | .array items, h => by rw [Value.idText, idTexts_eq_self items fun _ hv => h.of_mem hv]
  | .null, _ | .bool _, _ | .string _, _ | .object _, _ => rfl

lemma idTexts_eq_self : (items : List Value) → (∀ v ∈ items, v.Numberless) →
    Value.idTexts items = items
  | [], _ => rfl
  | v :: rest, h => by
    rw [Value.idTexts, idText_eq_self v (h v List.mem_cons_self),
      idTexts_eq_self rest fun w hw => h w (List.mem_cons_of_mem _ hw)]

end

/-- A value identifies by text what it is itself just when no number is found in it. -/
theorem identifies_self_iff (v : Value) : v.Identifies v ↔ v.Numberless := by
  constructor
  · exact Identifies.numberless
  · intro h
    have hself := identifies_idText v
    rwa [idText_eq_self v h] at hself

end Value

namespace Shaper

variable {x : Shaper} {type : String} {nodes : List FieldNode}

/-! ## Identifiers in a response -/

/-- What the value of a field that leads to no rows is made of: what its resolver gives, or what
stands in its entry of the row, if the parameters of its expression are bound. -/
inductive Supplies (x : Shaper) (row : Row) (g : ResponseField) (f : FieldDescriptor) :
    Value → Prop
  | resolver {resolve : Resolver} (resolver : f.resolver = some resolve) :
      Supplies x row g f (resolve row g.node.arguments)
  | entry (resolver : f.resolver = none) (rows : f.relation? = none)
      (bound : ∀ outputAlias e, f.kind = .computed outputAlias e →
        x.bindFault? e g.node.arguments = none) :
      Supplies x row g f (Value.orNull (row.get? f.entry))

/-- What a resolver gives is shown as it is. -/
lemma fieldValue_of_resolver {f : FieldDescriptor} {g : ResponseField} {resolve : Resolver}
    (hallows : f.allows g.node.arguments x.services = true) (hresolver : f.resolver = some resolve)
    (row : Row) (below : Below) :
    x.fieldValue f row below g = .ok (.pure (resolve row g.node.arguments)) := by
  rw [fieldValue, hallows, hresolver]
  rfl

/-- What stands in an entry is shown as text where it identifies. -/
lemma fieldValue_of_isId {f : FieldDescriptor} {g : ResponseField}
    (hallows : f.allows g.node.arguments x.services = true) (hid : f.type.isId = true)
    (hresolver : f.resolver = none) (hrows : f.relation? = none)
    (hbound : ∀ outputAlias e, f.kind = .computed outputAlias e →
      x.bindFault? e g.node.arguments = none) (row : Row) (below : Below) :
    x.fieldValue f row below g = .ok (.pure (Value.orNull (row.get? f.entry)).idText) := by
  have hleaf (value : Option Value) : leaf f value = .pure (Value.orNull value).idText := by
    rw [leaf, if_pos hid]
  rw [fieldValue, hallows, hresolver, FieldDescriptor.entry]
  cases hkind : f.kind with
  | column column => simp [hleaf]
  | computed outputAlias e => simp [hleaf, hbound outputAlias e hkind]
  | relation relation => simp [FieldDescriptor.relation?, hkind] at hrows
  | notSelectable => simp [hleaf]

/-- **Identifiers are shown as text, save those that a resolver gives as numbers.**

Wherever shaping reaches a row, and whatever field of the type `ID` is asked of it, in lists or not:
the field is there, and its value has no number at any depth of nested lists and spells what the
field is made of, if and only if the field has no resolver or what the resolver gives has no number
either. -/
theorem identifies_iff_of_shape {value : Value} {shaped : Shaped}
    (h : x.shape type value nodes = .ok shaped) {path : List PathSegment} {t : OutputType}
    {inner : List FieldNode} {row : Row}
    (hreaches : x.ReachesRow type nodes value path t inner row) {g : ResponseField}
    {f : FieldDescriptor} (hallows : x.Allows t inner g f) (hid : f.type.namedType = "ID")
    {v : Value} (hsupplies : x.Supplies row g f v) :
    ∃ shown, shaped.value.at? (path ++ [.key g.key]) = some shown ∧
      (f.resolver.isSome = true → shown = v) ∧
      (shown.Identifies v ↔ f.resolver = none ∨ v.Numberless) := by
  rw [shape] at h
  obtain ⟨own, hown, hat⟩ := exists_own_of_reachesRow hreaches hallows.mem h
  rw [rowField, if_neg hallows.name, hallows.found] at hown
  dsimp only at hown
  refine ⟨own.value, hat, ?_⟩
  -- What a resolver gives is shown as it is; what the row has is shown as text.
  cases hsupplies with
  | @resolver resolve hresolver =>
    rw [fieldValue_of_resolver hallows.allowed hresolver] at hown
    cases hown
    refine ⟨fun _ => rfl, ?_⟩
    simp [hresolver, Shaped.pure, Value.identifies_self_iff]
  | entry hresolver hrows hbound =>
    have hisId : f.type.isId = true := beq_iff_eq.2 hid
    rw [fieldValue_of_isId hallows.allowed hisId hresolver hrows hbound] at hown
    cases hown
    refine ⟨fun hsome => ?_, fun _ => .inl hresolver, fun _ => Value.identifies_idText _⟩
    rw [hresolver] at hsome
    cases hsome

/-- Authors and their posts.  A post has the identifiers of related posts in a column, and its
permalink, an identifier as well, from a resolver that reads another column. -/
def bulletin : Registry where
  settings := {}
  types := [
    { name := "Author"
      table := some "authors"
      fields := [
        { name := "posts", type := "[Post!]!"
          relation := some { localKey := some "id", foreignKey := some "author_id" } }] },
    { name := "Post"
      table := some "posts"
      fields := [
        { name := "related", type := "[ID!]!" },
        { name := "permalink", type := "ID!"
          resolver := some fun row _ => Value.orNull (row.get? "number") }] }]

/-- The shaper of the bulletin, without services. -/
def bulletinShaper : Shaper := ⟨bulletin, fun _ => none⟩

/-- The posts of an author. -/
def bulletinPosts : FieldDescriptor :=
  ⟨"posts", .list (.named "Post" true) true, .relation ⟨"posts", "id", "author_id", none⟩, false,
    none, none⟩

/-- The identifiers of related posts. -/
def relatedIds : FieldDescriptor :=
  ⟨"related", .list (.named "ID" true) true, .column "related", false, none, none⟩

/-- The identifier that a resolver gives. -/
def permalink : FieldDescriptor :=
  ⟨"permalink", .named "ID" true, .column "permalink", false, none,
    some fun row _ => Value.orNull (row.get? "number")⟩

/-- The type of authors. -/
def bulletinAuthor : OutputType := ⟨"Author", some "authors", [bulletinPosts]⟩

/-- The type of posts. -/
def bulletinPost : OutputType := ⟨"Post", some "posts", [relatedIds, permalink]⟩

/-- The identifiers of the posts of an author. -/
def bulletinSelection : List FieldNode :=
  [plainNode "posts" [plainNode "related" [], plainNode "permalink" []]]

/-- A post of which all identifiers are numbers. -/
def numberedPost : Row := [("number", .int 7), ("related", .array [.int 3, .array [.int (-4)]])]

lemma reachesRow_bulletin :
    bulletinShaper.ReachesRow "Author" bulletinSelection
      (.object [("posts", .array [.object numberedPost])]) [.key "posts", .index 0] bulletinPost
      [plainNode "related" [], plainNode "permalink" []] numberedPost := by
  have hauthor : bulletin.describe "Author" = .ok (some bulletinAuthor) := by with_unfolding_all rfl
  have hpost : bulletin.describe "Post" = .ok (some bulletinPost) := by with_unfolding_all rfl
  have hallows : bulletinShaper.Allows bulletinAuthor bulletinSelection
      ⟨plainNode "posts" [plainNode "related" [], plainNode "permalink" []],
        [plainNode "related" [], plainNode "permalink" []]⟩ bulletinPosts :=
    ⟨⟨List.mem_cons_self, by decide, rfl⟩, rfl⟩
  exact .relation (by decide +kernel) hauthor hallows rfl rfl rfl
    (.item rfl (.here (by decide +kernel) hpost))

/-- The related identifiers are shown as text, those in the list within the list too; the permalink
is shown as the number that the resolver gives. -/
theorem identifies_iff_of_shape_bulletin :
    ∃ shaped, bulletinShaper.shape "Author" (.object [("posts", .array [.object numberedPost])])
        bulletinSelection = .ok shaped ∧
      (∃ shown, shaped.value.at? [.key "posts", .index 0, .key "related"] = some shown ∧
        shown.Identifies (.array [.int 3, .array [.int (-4)]])) ∧
      shaped.value.at? [.key "posts", .index 0, .key "permalink"] = some (.int 7) ∧
      ¬ (Value.int 7).Identifies (.int 7) := by
  have hok : (bulletinShaper.shape "Author"
      (.object [("posts", .array [.object numberedPost])]) bulletinSelection).isOk = true := by
    decide +kernel
  obtain ⟨shaped, hshaped⟩ := exists_ok_of_isOk hok
  have hrelated : bulletinShaper.Allows bulletinPost
      [plainNode "related" [], plainNode "permalink" []] ⟨plainNode "related" [], []⟩ relatedIds :=
    ⟨⟨List.mem_cons_self, by decide, rfl⟩, rfl⟩
  have hpermalink : bulletinShaper.Allows bulletinPost
      [plainNode "related" [], plainNode "permalink" []] ⟨plainNode "permalink" [], []⟩
      permalink := ⟨⟨.tail _ (.head _), by decide, rfl⟩, rfl⟩
  obtain ⟨shown, hat, -, hiff⟩ := identifies_iff_of_shape hshaped reachesRow_bulletin hrelated rfl
    (.entry rfl rfl nofun)
  obtain ⟨resolved, hresolved, hsame, -⟩ := identifies_iff_of_shape hshaped reachesRow_bulletin
    hpermalink rfl (.resolver rfl)
  rw [hsame rfl] at hresolved
  refine ⟨shaped, hshaped, ⟨shown, hat, hiff.2 (.inl rfl)⟩, hresolved, fun hidentifies => ?_⟩
  exact hidentifies.numberless.not_isNumber trivial

end Shaper

end GraphProjection
