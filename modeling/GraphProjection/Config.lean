import GraphProjection.Page
import GraphProjection.Registry
import GraphProjection.Toml.Reader

/-!
# Configuration

A configuration document declares settings and output types.  Each of its tables is a record:
the root, the settings, every type, every field and every relation have their own keys, and no
other key is allowed.  All keys may be left out but the type of a field.  A record may be written
as an array too, which gives the values of its keys in order and may stop early.

`Config.ofEntries` decodes the entries of a document in the order in which they stand, so the
first wrong one is reported; a key that is missing is only noticed behind the last entry of its
table.  `Config.declarations` hands the types on to the registry.
-/

namespace GraphProjection

/-- The configuration of a relation. -/
structure RelationConfig where
  name : Option String := none
  localKey : Option String := none
  foreignKey : Option String := none
deriving DecidableEq, Repr

/-- The configuration of a field. -/
structure FieldConfig where
  type : String := ""
  column : Option String := none
  always : Bool := false
  selectable : Bool := true
  expression : Option String := none
  outputAlias : Option String := none
  relation : Option RelationConfig := none
deriving DecidableEq, Repr

/-- The configuration of an output type. -/
structure TypeConfig where
  table : Option String := none
  fields : Entries FieldConfig := []
deriving DecidableEq, Repr

/-- A configuration. -/
structure Config where
  settings : Settings := {}
  types : Entries TypeConfig := []
deriving DecidableEq, Repr

/-- Why a document is no configuration. -/
inductive ConfigError where
  /-- The text is no TOML document. -/
  | malformed
  /-- A value is not of the kind that its key has, or out of its range. -/
  | wrongValue
  | missingField (name : String)
  | unknownField (name : String) (expected : List String)
  | unknownVariant (name : String) (expected : List String)
deriving DecidableEq, Repr

namespace ConfigError

/-- A name between backticks. -/
def ticked (name : String) : String := "\x60" ++ name ++ "\x60"

/-- The names that would have been right. -/
def expectation (names : List String) : String :=
  match names with
  | [] => "there are no fields"
  | [a] => "expected " ++ ticked a
  | [a, b] => "expected " ++ ticked a ++ " or " ++ ticked b
  | names => "expected one of " ++ String.intercalate ", " (names.map ticked)

/-- What is said of an error about names; the other errors have no fixed text. -/
def message? : ConfigError → Option String
  | .malformed | .wrongValue => none
  | .missingField name => some ("missing field " ++ ticked name)
  | .unknownField name expected =>
    some ("unknown field " ++ ticked name ++ ", " ++ expectation expected)
  | .unknownVariant name expected =>
    some ("unknown variant " ++ ticked name ++ ", " ++ expectation expected)

end ConfigError

namespace Toml

/-! ## Values of one kind -/

/-- A string. -/
def asString : Toml → Except ConfigError String
  | .string s => .ok s
  | _ => .error .wrongValue

/-- A boolean. -/
def asBool : Toml → Except ConfigError Bool
  | .boolean b => .ok b
  | _ => .error .wrongValue

/-- The size of a page. -/
def asSize : Toml → Except ConfigError Nat
  | .integer (.ofNat n) => if n ≤ maxSize then .ok n else .error .wrongValue
  | _ => .error .wrongValue

/-- A table. -/
def asTable (value : Toml) : Except ConfigError (Entries Toml) :=
  match value.entries? with
  | some entries => .ok entries
  | none => .error .wrongValue

/-- One of a list of names, given as a string or as the only key of a table, whose value is then
empty. -/
def asVariant {α : Type} (ofName? : String → Option α) (names : List String) (value : Toml) :
    Except ConfigError α :=
  let find (name : String) : Except ConfigError α :=
    match ofName? name with
    | some variant => .ok variant
    | none => .error (.unknownVariant name names)
  match value with
  | .string name => find name
  | .table [(name, content)] => do
    let variant ← find name
    match content with
    | .table [] | .array [] => .ok variant
    | _ => .error .wrongValue
  | _ => .error .wrongValue

/-- The entries of a table whose values are decoded one by one. -/
def asEntries {α : Type} (decode : Toml → Except ConfigError α) (value : Toml) :
    Except ConfigError (Entries α) := do
  let entries ← value.asTable
  entries.mapM fun (key, value) => do
    let decoded ← decode value
    .ok (key, decoded)

/-- The entries of a record.  An array stands for the values of the first keys, in order. -/
def asRecordEntries (keys : List String) (value : Toml) : Except ConfigError (Entries Toml) :=
  match value with
  | .array items => .ok (keys.zip items)
  | value => value.asTable

/-- A record whose entries are read one by one on top of its defaults. -/
def asRecord {α : Type} (keys : List String) (defaults : α)
    (read : α → String → Toml → Except ConfigError α) (value : Toml) : Except ConfigError α := do
  let entries ← value.asRecordEntries keys
  entries.foldlM (fun record (key, value) => read record key value) defaults

end Toml

/-! ## Records -/

namespace RelationConfig

/-- The keys of a relation. -/
def keys : List String := ["name", "local_key", "foreign_key"]

/-- Reads an entry of a relation. -/
def readEntry (r : RelationConfig) (key : String) (value : Toml) :
    Except ConfigError RelationConfig :=
  match key with
  | "name" => value.asString.map fun s => { r with name := some s }
  | "local_key" => value.asString.map fun s => { r with localKey := some s }
  | "foreign_key" => value.asString.map fun s => { r with foreignKey := some s }
  | _ => .error (.unknownField key keys)

/-- Decodes a relation. -/
def ofToml (value : Toml) : Except ConfigError RelationConfig := value.asRecord keys {} readEntry

end RelationConfig

namespace FieldConfig

/-- The keys of a field. -/
def keys : List String :=
  ["type", "column", "always", "selectable", "expression", "alias", "relation"]

/-- Reads an entry of a field. -/
def readEntry (f : FieldConfig) (key : String) (value : Toml) : Except ConfigError FieldConfig :=
  match key with
  | "type" => value.asString.map fun s => { f with type := s }
  | "column" => value.asString.map fun s => { f with column := some s }
  | "always" => value.asBool.map fun b => { f with always := b }
  | "selectable" => value.asBool.map fun b => { f with selectable := b }
  | "expression" => value.asString.map fun s => { f with expression := some s }
  | "alias" => value.asString.map fun s => { f with outputAlias := some s }
  | "relation" => (RelationConfig.ofToml value).map fun r => { f with relation := some r }
  | _ => .error (.unknownField key keys)

/-- What is wrong with a field without a type. -/
def typeMissing : Toml → ConfigError
  | .array _ => .wrongValue
  | _ => .missingField "type"

/-- Decodes a field, which has to have a type. -/
def ofToml (value : Toml) : Except ConfigError FieldConfig := do
  let entries ← value.asRecordEntries keys
  let field ← value.asRecord keys {} readEntry
  if entries.has "type" then .ok field else .error (typeMissing value)

end FieldConfig

namespace TypeConfig

/-- The keys of a type. -/
def keys : List String := ["table", "fields"]

/-- Reads an entry of a type. -/
def readEntry (t : TypeConfig) (key : String) (value : Toml) : Except ConfigError TypeConfig :=
  match key with
  | "table" => value.asString.map fun s => { t with table := some s }
  | "fields" => (value.asEntries FieldConfig.ofToml).map fun fields => { t with fields := fields }
  | _ => .error (.unknownField key keys)

/-- Decodes a type. -/
def ofToml (value : Toml) : Except ConfigError TypeConfig := value.asRecord keys {} readEntry

end TypeConfig

namespace Settings

/-- The keys of the settings. -/
def keys : List String := ["debug", "default_per_page", "always_select"]

/-- Reads an entry of the settings. -/
def readEntry (s : Settings) (key : String) (value : Toml) : Except ConfigError Settings :=
  match key with
  | "debug" => value.asBool.map fun b => { s with debug := b }
  | "default_per_page" => value.asSize.map fun n => { s with defaultPerPage := n }
  | "always_select" =>
    (value.asVariant AlwaysSelect.ofName? (AlwaysSelect.all.map (·.name))).map fun policy =>
      { s with alwaysSelect := policy }
  | _ => .error (.unknownField key keys)

/-- Decodes the settings. -/
def ofToml (value : Toml) : Except ConfigError Settings := value.asRecord keys {} readEntry

end Settings

namespace Config

/-- The keys of a configuration. -/
def keys : List String := ["settings", "types"]

/-- Reads an entry of a configuration. -/
def readEntry (c : Config) (key : String) (value : Toml) : Except ConfigError Config :=
  match key with
  | "settings" => (Settings.ofToml value).map fun settings => { c with settings := settings }
  | "types" => (value.asEntries TypeConfig.ofToml).map fun types => { c with types := types }
  | _ => .error (.unknownField key keys)

/-- Decodes the entries of a document. -/
def ofEntries (entries : Entries Toml) : Except ConfigError Config :=
  (Toml.table entries).asRecord keys {} readEntry

/-- Reads a configuration. -/
def parse (text : String) : Except ConfigError Config :=
  match Toml.parse? text with
  | some entries => ofEntries entries
  | none => .error .malformed

end Config

/-! ## Declarations -/

/-- The declaration of a configured relation. -/
def RelationConfig.declaration (r : RelationConfig) : RelationDeclaration where
  name := r.name
  localKey := r.localKey
  foreignKey := r.foreignKey

/-- The declaration of a configured field. -/
def FieldConfig.declaration (name : String) (f : FieldConfig) : FieldDeclaration where
  name := name
  type := f.type
  column := f.column
  always := f.always
  selectable := f.selectable
  expression := f.expression.map .raw
  outputAlias := f.outputAlias
  relation := f.relation.map (·.declaration)

/-- The declaration of a configured type. -/
def TypeConfig.declaration (name : String) (t : TypeConfig) : TypeDeclaration where
  name := name
  table := t.table
  fields := t.fields.map fun (name, f) => f.declaration name

/-- The declarations of a configuration. -/
def Config.declarations (c : Config) : Declarations where
  settings := c.settings
  types := c.types.map fun (name, t) => t.declaration name

end GraphProjection
