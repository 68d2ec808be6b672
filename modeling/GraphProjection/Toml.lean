import GraphProjection.Entries

/-!
# Configuration documents

A TOML document is a table of values, its keys in the order in which they first appear.  The
configuration has no use for fractional numbers and dates, so these are kept as they are written.
Equality of documents is decided by `Toml.equals`.
-/

namespace GraphProjection

/-- A value of a TOML document. -/
inductive Toml where
  | string (value : String)
  | integer (value : Int)
  | float (written : String)
  | boolean (value : Bool)
  | datetime (written : String)
  | array (items : List Toml)
  | table (entries : List (String × Toml))
deriving Inhabited, Repr

namespace Toml

/-- The key under which a date shows where a table is looked for. -/
def dateKey : String := "$__toml_private_datetime"

/-- A value seen as a table.  A date is one too, with a single reserved key. -/
def entries? : Toml → Option (Entries Toml)
  | .table entries => some entries
  | .datetime written => some [(dateKey, .string written)]
  | _ => none

/-! ## Equality -/

mutual

/-- Whether two values are equal, which takes equal entries in the same order. -/
def equals : Toml → Toml → Bool
  | .string a, .string b => a == b
  | .integer a, .integer b => a == b
  | .float a, .float b => a == b
  | .boolean a, .boolean b => a == b
  | .datetime a, .datetime b => a == b
  | .array a, .array b => equalItems a b
  | .table a, .table b => equalEntries a b
  | _, _ => false

/-- Whether two lists hold equal values. -/
def equalItems : List Toml → List Toml → Bool
  | [], [] => true
  | a :: as, b :: bs => a.equals b && equalItems as bs
  | _, _ => false

/-- Whether two lists hold equal entries. -/
def equalEntries : List (String × Toml) → List (String × Toml) → Bool
  | [], [] => true
  | (key, a) :: as, (other, b) :: bs => key == other && a.equals b && equalEntries as bs
  | _, _ => false

end

mutual

theorem equals_iff (a b : Toml) : a.equals b = true ↔ a = b := by
  cases a with
  | array items => cases b <;> simp [equals, equalItems_iff items]
  | table entries => cases b <;> simp [equals, equalEntries_iff entries]
  | _ => cases b <;> simp [equals]

theorem equalItems_iff (items others : List Toml) :
    equalItems items others = true ↔ items = others := by
  cases items with
  | nil => cases others <;> simp [equalItems]
  | cons a rest => cases others <;> simp [equalItems, equals_iff a, equalItems_iff rest]

theorem equalEntries_iff (entries others : List (String × Toml)) :
    equalEntries entries others = true ↔ entries = others := by
  cases entries with
  | nil => cases others <;> simp [equalEntries]
  | cons pair rest =>
    obtain ⟨key, a⟩ := pair
    cases others <;> simp [equalEntries, equals_iff a, equalEntries_iff rest, Prod.ext_iff]

end

instance : DecidableEq Toml := fun a b => decidable_of_iff _ (equals_iff a b)

end Toml

end GraphProjection
