import GraphProjection.Proofs.Acceptance
import GraphProjection.Proofs.Configuration.Levels

/-!
# Declaring what is configured

A field can be declared by calls as well: it starts with a name and a type, and each call sets one
attribute.  What a configuration declares is what the calls for its attributes declare, in whatever
order they are made: no attribute is set twice, and calls for different attributes do not see each
other.

The declarations of a configuration are those of its types, in order, and every field of theirs is
the one that its calls declare (`Config.declares`).

Main statement: **`Config.follows_levels`**, a document is read as a configuration exactly if it
keeps to the levels of one, and what it comes to is declared.
-/

namespace GraphProjection

/-! ## Relations -/

/-- A call that sets an attribute of a relation. -/
inductive RelationCall where
  | name (s : String)
  | localKey (column : String)
  | foreignKey (column : String)

/-- Sets the attribute of a call. -/
def RelationDeclaration.set (d : RelationDeclaration) : RelationCall → RelationDeclaration
  | .name s => { d with name := some s }
  | .localKey column => { d with localKey := some column }
  | .foreignKey column => { d with foreignKey := some column }

/-- The relation that calls declare, one after the other. -/
def RelationDeclaration.ofCalls (calls : List RelationCall) : RelationDeclaration :=
  calls.foldl set {}

namespace RelationConfig

/-- The calls for the attributes of a relation. -/
def calls (r : RelationConfig) : List RelationCall :=
  r.name.toList.map .name ++ r.localKey.toList.map .localKey ++ r.foreignKey.toList.map .foreignKey

lemma set_comm_of_mem_calls {r : RelationConfig} {x y : RelationCall} (hx : x ∈ r.calls)
    (hy : y ∈ r.calls) (d : RelationDeclaration) : (d.set x).set y = (d.set y).set x := by
  cases x <;> cases y <;> first | rfl | simp_all [calls, RelationDeclaration.set]

lemma ofCalls_calls (r : RelationConfig) : .ofCalls r.calls = r.declaration := by
  obtain ⟨name, localKey, foreignKey⟩ := r
  cases name <;> cases localKey <;> cases foreignKey <;> rfl

/-- The calls for a relation declare what the relation declares, in whatever order they are made. -/
lemma ofCalls_of_perm {r : RelationConfig} {made : List RelationCall} (h : made.Perm r.calls) :
    .ofCalls made = r.declaration := by
  have hcomm : ∀ x ∈ made, ∀ y ∈ made, ∀ d : RelationDeclaration,
      (d.set x).set y = (d.set y).set x := fun x hx y hy =>
    set_comm_of_mem_calls (h.subset hx) (h.subset hy)
  exact (h.foldl_eq' hcomm {}).trans r.ofCalls_calls

end RelationConfig

/-! ## Fields -/

/-- A call that sets an attribute of a field. -/
inductive FieldCall where
  | column (s : String)
  | always
  | notSelectable
  | expression (sql : String)
  | outputAlias (s : String)
  | relation (d : RelationDeclaration)

/-- Sets the attribute of a call. -/
def FieldDeclaration.set (d : FieldDeclaration) : FieldCall → FieldDeclaration
  | .column s => { d with column := some s }
  | .always => { d with always := true }
  | .notSelectable => { d with selectable := false }
  | .expression sql => { d with expression := some (.raw sql) }
  | .outputAlias s => { d with outputAlias := some s }
  | .relation relation => { d with relation := some relation }

/-- The field of a name and a type that calls declare, one after the other. -/
def FieldDeclaration.ofCalls (name type : String) (calls : List FieldCall) : FieldDeclaration :=
  calls.foldl set { name := name, type := type }

namespace FieldConfig

/-- The calls for the attributes of a field, where its relation is declared by calls too. -/
def calls (f : FieldConfig) (inner : List RelationCall) : List FieldCall :=
  f.column.toList.map FieldCall.column ++ (if f.always then [FieldCall.always] else []) ++
    (if f.selectable then [] else [FieldCall.notSelectable]) ++
    f.expression.toList.map FieldCall.expression ++
    f.outputAlias.toList.map FieldCall.outputAlias ++
    f.relation.toList.map fun _ => FieldCall.relation (.ofCalls inner)

/-- Calls are those for the attributes of a field, in some order. -/
def CalledBy (f : FieldConfig) (made : List FieldCall) : Prop :=
  ∃ inner, (∀ r, f.relation = some r → inner.Perm r.calls) ∧ made.Perm (f.calls inner)

lemma exists_calledBy (f : FieldConfig) : ∃ made, f.CalledBy made :=
  ⟨_, ((f.relation.map (·.calls)).getD []), fun r hr => by simp [hr], .refl _⟩

lemma set_comm_of_mem_calls {f : FieldConfig} {inner : List RelationCall} {x y : FieldCall}
    (hx : x ∈ f.calls inner) (hy : y ∈ f.calls inner) (d : FieldDeclaration) :
    (d.set x).set y = (d.set y).set x := by
  -- Calls of one attribute are the same call, since both are made for the field.
  cases x <;> cases y <;> first | rfl | simp_all [calls, FieldDeclaration.set]

lemma ofCalls_calls {f : FieldConfig} {inner : List RelationCall}
    (hinner : ∀ r, f.relation = some r → inner.Perm r.calls) (name : String) :
    .ofCalls name f.type (f.calls inner) = f.declaration name := by
  obtain ⟨type, column, always, selectable, expression, outputAlias, relation⟩ := f
  have hrelation : relation.toList.map (fun _ => FieldCall.relation (.ofCalls inner)) =
      relation.toList.map fun r => .relation r.declaration := by
    cases relation with
    | none => rfl
    | some r => rw [RelationConfig.ofCalls_of_perm (hinner r rfl)]; rfl
  rw [calls, hrelation]
  -- Each attribute is left alone or set once.
  cases column <;> cases always <;> cases selectable <;> cases expression <;> cases outputAlias <;>
    cases relation <;> rfl

/-- The calls for a field declare what the field declares, in whatever order they are made. -/
lemma ofCalls_of_calledBy {f : FieldConfig} {made : List FieldCall} (h : f.CalledBy made)
    (name : String) : .ofCalls name f.type made = f.declaration name := by
  obtain ⟨inner, hinner, hmade⟩ := h
  have hcomm : ∀ x ∈ made, ∀ y ∈ made, ∀ d : FieldDeclaration,
      (d.set x).set y = (d.set y).set x := fun x hx y hy =>
    set_comm_of_mem_calls (hmade.subset hx) (hmade.subset hy)
  exact (hmade.foldl_eq' hcomm _).trans (ofCalls_calls hinner name)

/-- A field is declared as the calls for its attributes declare it, and comes to the same. -/
structure DeclaredAs (name : String) (f : FieldConfig) (d : FieldDeclaration) : Prop where
  called : ∃ made, f.CalledBy made
  ofCalls : ∀ made, f.CalledBy made → d = .ofCalls name f.type made
  resolve : ∀ made, f.CalledBy made → ∀ isOutputType type,
    d.resolve isOutputType type =
      (FieldDeclaration.ofCalls name f.type made).resolve isOutputType type

lemma declaredAs_declaration (name : String) (f : FieldConfig) :
    f.DeclaredAs name (f.declaration name) where
  called := f.exists_calledBy
  ofCalls _ hmade := (ofCalls_of_calledBy hmade name).symm
  resolve _ hmade _ _ := by rw [ofCalls_of_calledBy hmade name]

end FieldConfig

/-! ## Types -/

/-- A type is declared with its fields, each of them as its calls declare it. -/
structure TypeConfig.DeclaredAs (name : String) (t : TypeConfig) (d : TypeDeclaration) : Prop where
  name : d.name = name
  table : d.table = t.table
  fields : List.Forall₂ (fun pair d => FieldConfig.DeclaredAs pair.1 pair.2 d) t.fields d.fields

lemma TypeConfig.declaredAs_declaration (name : String) (t : TypeConfig) :
    t.DeclaredAs name (t.declaration name) where
  name := rfl
  table := rfl
  fields := List.forall₂_map_right_iff.2 (List.forall₂_same.2 fun pair _ =>
    pair.2.declaredAs_declaration pair.1)

/-- A configuration declares its types, in order. -/
theorem Config.declares (c : Config) :
    List.Forall₂ (fun pair d => TypeConfig.DeclaredAs pair.1 pair.2 d) c.types
      c.declarations.types :=
  List.forall₂_map_right_iff.2 (List.forall₂_same.2 fun pair _ =>
    pair.2.declaredAs_declaration pair.1)

/-! ## Documents -/

namespace Config

/-- A document is read as a configuration exactly if it keeps to the levels of one.  What is read is
what its entries come to, and what that declares is what calls would declare. -/
theorem follows_levels {text : String} {entries : Entries Toml}
    (htext : Toml.parse? text = some entries) :
    ((∃ c, parse text = .ok c) ↔ ∀ pair ∈ entries, level.Admits pair.1 pair.2) ∧
      ∀ c, parse text = .ok c → Reads entries c ∧ c.declarations.settings = c.settings ∧
        List.Forall₂ (fun pair d => TypeConfig.DeclaredAs pair.1 pair.2 d) c.types
          c.declarations.types := by
  rw [parse_of_parse? htext]
  refine ⟨exists_ofEntries_iff entries, fun c hc => ⟨?_, rfl, c.declares⟩⟩
  exact reads_of_ofEntries (Toml.keyed_of_parse? htext) hc

/-- A document with settings and two types, one of which has a relation with the other. -/
def journalText : String :=
  "[settings]\ndefault_per_page = 20\n[types.Post]\ntable = \"posts\"\n" ++
  "[types.Post.fields.comments]\ntype = \"[Comment!]!\"\n" ++
  "relation = \x7b foreign_key = \"post_id\" \x7d\n" ++
  "[types.Comment.fields]\nbody = \x7b type = \"String!\", column = \"text\" \x7d\n"

/-- The entries of the document. -/
def journalEntries : Entries Toml :=
  [("settings", .table [("default_per_page", .integer 20)]),
    ("types", .table
      [("Post", .table
          [("table", .string "posts"),
            ("fields", .table
              [("comments", .table
                [("type", .string "[Comment!]!"),
                  ("relation", .table [("foreign_key", .string "post_id")])])])]),
        ("Comment", .table
          [("fields", .table
            [("body", .table [("type", .string "String!"), ("column", .string "text")])])])])]

/-- What the document configures. -/
def journal : Config where
  settings := { defaultPerPage := 20 }
  types := [
    ("Post", {
      table := some "posts"
      fields := [
        ("comments", {
          type := "[Comment!]!", relation := some { foreignKey := some "post_id" } })] }),
    ("Comment", { fields := [("body", { type := "String!", column := some "text" })] })]

/-- The document keeps to the levels of a configuration, and is read as what it configures. -/
theorem follows_levels_journal :
    Toml.parse? journalText = some journalEntries ∧ parse journalText = .ok journal ∧
      (∀ pair ∈ journalEntries, level.Admits pair.1 pair.2) ∧ Reads journalEntries journal ∧
      List.Forall₂ (fun pair d => TypeConfig.DeclaredAs pair.1 pair.2 d) journal.types
        journal.declarations.types := by
  have htext : Toml.parse? journalText = some journalEntries := by decide +kernel
  have hparse : parse journalText = .ok journal := by
    rw [parse_of_parse? htext]
    decide +kernel
  obtain ⟨haccepts, hmeans⟩ := follows_levels htext
  obtain ⟨hreads, -, hdeclares⟩ := hmeans journal hparse
  exact ⟨htext, hparse, haccepts.1 ⟨journal, hparse⟩, hreads, hdeclares⟩

/-- The settings need not be a table, the name of a policy need not be a string, and the types are
not always in the order in which the text first names them. -/
theorem strays_from_tables :
    (Toml.parse? "settings = [true]" = some [("settings", .array [.boolean true])] ∧
      parse "settings = [true]" = .ok { settings := { debug := true } }) ∧
    (Toml.parse? "[settings.always_select.eager_load_relations]" =
        some [("settings",
          .table [("always_select", .table [("eager_load_relations", .table [])])])] ∧
      parse "[settings.always_select.eager_load_relations]" =
        .ok { settings := { alwaysSelect := .eagerLoadRelations } }) ∧
    parse "[types.Post.fields]\n[types.Comment]\n[types.Post]\n" =
      .ok { types := [("Comment", {}), ("Post", {})] } := by
  exact ⟨⟨by decide +kernel, by decide +kernel⟩, ⟨by decide +kernel, by decide +kernel⟩,
    by decide +kernel⟩

/-- No configuration declares a type twice. -/
lemma buildLazy_of_parse {text : String} {c : Config} (h : parse text = .ok c) :
    c.declarations.buildLazy = .ok ⟨c.settings, c.declarations.types⟩ := by
  have hnames : (c.declarations.types.map (·.name)).Nodup := by
    rw [declarations, List.map_map]
    exact nodup_names_types h
  rw [Declarations.buildLazy, Declarations.repeatedName?_eq_none_iff.2
    ⟨hnames, fun _ _ => List.not_mem_nil⟩]
  rfl

end Config

end GraphProjection
