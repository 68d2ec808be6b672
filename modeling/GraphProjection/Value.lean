import GraphProjection.Entries
import GraphProjection.Binary64

/-!
# Values

Arguments, rows and responses are all made of one kind of data: null, booleans, whole and
fractional numbers, strings, lists, and objects whose members keep their order.

A whole number and a fractional one are never the same value, not even `1` and `1.0`.  Two
objects are the same when they hold the same members, whatever their order, although their
texts differ.  `Value.same` is that comparison; it is an equivalence in the two ways that the
rest of the library relies on, `Value.same_refl` and the member-wise reading of
`sameMembers_iff`.  Equality looks at the order of members as well, and is decided by
`Value.equals`.
-/

namespace GraphProjection

/-- A value of a request, a row or a response. -/
inductive Value where
  | null
  | bool (value : Bool)
  | int (value : Int)
  | double (value : Binary64)
  | string (value : String)
  | array (items : List Value)
  | object (members : List (String × Value))
deriving Inhabited, Repr

/-- The arguments given to a field, in the order in which they were written. -/
abbrev Arguments := Entries Value

/-- A row of a table, by column name or output alias. -/
abbrev Row := Entries Value

namespace Value

/-! ## Sameness -/

mutual

/-- Whether two values are the same, objects being compared regardless of order. -/
def same : Value → Value → Bool
  | .null, .null => true
  | .bool a, .bool b => a == b
  | .int a, .int b => a == b
  | .double a, .double b => a.same b
  | .string a, .string b => a == b
  | .array a, .array b => sameItems a b
  | .object a, .object b => a.length == b.length && sameMembers a b
  | _, _ => false

/-- Whether two lists hold the same values in the same order. -/
def sameItems : List Value → List Value → Bool
  | [], [] => true
  | a :: as, b :: bs => a.same b && sameItems as bs
  | _, _ => false

/-- Whether every member of the first object is in the second with the same value. -/
def sameMembers : List (String × Value) → List (String × Value) → Bool
  | [], _ => true
  | (name, a) :: rest, other =>
    (match Entries.get? other name with
      | some b => a.same b
      | none => false) && sameMembers rest other

end

/-- Whether two argument lists hold the same values under the same names. -/
def sameArguments (a b : Arguments) : Bool := a.length == b.length && sameMembers a b

theorem sameMembers_iff (a b : List (String × Value)) :
    sameMembers a b = true ↔
      ∀ pair ∈ a, ∃ other, Entries.get? b pair.1 = some other ∧ pair.2.same other = true := by
  induction a with
  | nil => simp [sameMembers]
  | cons pair rest ih =>
    obtain ⟨name, value⟩ := pair
    cases h : Entries.get? b name with
    | none => simp [sameMembers, h]
    | some other => simp [sameMembers, h, ih]

/-! ## Equality -/

mutual

/-- Whether two values are equal, which takes equal members in the same order. -/
def equals : Value → Value → Bool
  | .null, .null => true
  | .bool a, .bool b => a == b
  | .int a, .int b => a == b
  | .double a, .double b => a == b
  | .string a, .string b => a == b
  | .array a, .array b => equalItems a b
  | .object a, .object b => equalMembers a b
  | _, _ => false

/-- Whether two lists hold equal values. -/
def equalItems : List Value → List Value → Bool
  | [], [] => true
  | a :: as, b :: bs => a.equals b && equalItems as bs
  | _, _ => false

/-- Whether two lists hold equal members. -/
def equalMembers : List (String × Value) → List (String × Value) → Bool
  | [], [] => true
  | (name, a) :: as, (other, b) :: bs => name == other && a.equals b && equalMembers as bs
  | _, _ => false

end

mutual

theorem equals_iff (a b : Value) : a.equals b = true ↔ a = b := by
  cases a with
  | array items => cases b <;> simp [equals, equalItems_iff items]
  | object members => cases b <;> simp [equals, equalMembers_iff members]
  | _ => cases b <;> simp [equals]

theorem equalItems_iff (items others : List Value) :
    equalItems items others = true ↔ items = others := by
  cases items with
  | nil => cases others <;> simp [equalItems]
  | cons a rest => cases others <;> simp [equalItems, equals_iff a, equalItems_iff rest]

theorem equalMembers_iff (members others : List (String × Value)) :
    equalMembers members others = true ↔ members = others := by
  cases members with
  | nil => cases others <;> simp [equalMembers]
  | cons pair rest =>
    obtain ⟨name, a⟩ := pair
    cases others <;> simp [equalMembers, equals_iff a, equalMembers_iff rest, Prod.ext_iff]

end

instance : DecidableEq Value := fun a b => decidable_of_iff _ (equals_iff a b)

/-! ## Views -/

/-- Null or absent. -/
def isNull : Value → Bool
  | .null => true
  | _ => false

/-- The boolean, if the value is one. -/
def asBool? : Value → Option Bool
  | .bool b => some b
  | _ => none

/-- The whole number, if the value is one that is not negative. -/
def asNat? : Value → Option Nat
  | .int (.ofNat n) => some n
  | _ => none

/-- A value that may be absent, absence being null. -/
def orNull : Option Value → Value
  | some v => v
  | none => .null

@[simp] theorem orNull_some (v : Value) : orNull (some v) = v := rfl

@[simp] theorem orNull_none : orNull none = .null := rfl

end Value

end GraphProjection
