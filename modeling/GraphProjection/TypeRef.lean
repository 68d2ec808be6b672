import GraphProjection.Text.Blank
import GraphProjection.Text.Name

/-!
# Type references

A field's type is written as a name, in brackets for a list, with `!` behind whatever is never
null: `ID!`, `[Comment!]!`.  `TypeRef` is the tree of that grammar.  A mark is part of what it
follows, so `!` cannot be doubled in a tree any more than in a text.

`TypeRef.parse?` reads a text from the outside in.  White space may stand around every token.
`TypeRef.text` writes the tree without any.
-/

namespace GraphProjection

/-- A reference to a type; `required` is the mark that excludes null. -/
inductive TypeRef where
  | named (name : String) (required : Bool)
  | list (item : TypeRef) (required : Bool)
deriving DecidableEq, Repr

namespace TypeRef

/-- The name inside all brackets. -/
def namedType : TypeRef → String
  | .named name _ => name
  | .list item _ => item.namedType

/-- Whether there is a bracket at any depth. -/
def isList : TypeRef → Bool
  | .named _ _ => false
  | .list _ _ => true

/-- Whether the outermost form excludes null. -/
def isRequired : TypeRef → Bool
  | .named _ required => required
  | .list _ required => required

/-- Whether the values of the type are identifiers. -/
def isId (t : TypeRef) : Bool := t.namedType == "ID"

/-! ## Writing -/

/-- The mark behind a type that excludes null. -/
def mark (required : Bool) : List Char := if required then ['!'] else []

/-- The characters of a reference, without white space. -/
def chars : TypeRef → List Char
  | .named name required => name.toList ++ mark required
  | .list item required => '[' :: item.chars ++ ']' :: mark required

/-- The text of a reference. -/
def text (t : TypeRef) : String := String.ofList t.chars

/-! ## Reading -/

/-- A text without the character at its end, if it ends in that character. -/
def dropLast? (c : Char) (cs : List Char) : Option (List Char) :=
  if cs.getLast? = some c then some cs.dropLast else none

theorem length_of_dropLast? {c : Char} {cs rest : List Char} (h : dropLast? c cs = some rest) :
    rest.length + 1 = cs.length := by
  unfold dropLast? at h
  split at h
  · next hl =>
    cases h
    cases cs with
    | nil => simp at hl
    | cons => simp
  · simp at h

/-- A text without its mark, and whether it had one. -/
def splitMark (cs : List Char) : List Char × Bool :=
  match dropLast? '!' cs with
  | some rest => (Text.trimEnd rest, true)
  | none => (cs, false)

theorem length_splitMark_le (cs : List Char) : (splitMark cs).1.length ≤ cs.length := by
  unfold splitMark
  split
  · next h =>
    have := length_of_dropLast? h
    have := Text.length_trimEnd_le (by assumption)
    simp only at *
    omega
  · exact Nat.le_refl _

theorem length_inner_lt {cs rest inner : List Char}
    (h : (splitMark (Text.trim cs)).1 = '[' :: rest) (hr : dropLast? ']' rest = some inner) :
    inner.length < cs.length := by
  have hm := length_splitMark_le (Text.trim cs)
  have ht := Text.length_trim_le cs
  have hi := length_of_dropLast? hr
  rw [h] at hm
  simp only [List.length_cons] at hm
  omega

/-- Reads a reference from the characters of a text. -/
def ofChars? (cs : List Char) : Option TypeRef :=
  match h : (splitMark (Text.trim cs)).1 with
  | '[' :: rest =>
    match hr : dropLast? ']' rest with
    | some inner =>
      have := length_inner_lt h hr
      (ofChars? inner).map (.list · (splitMark (Text.trim cs)).2)
    | none => none
  | name =>
    if Text.isName name then some (.named (String.ofList name) (splitMark (Text.trim cs)).2)
    else none
termination_by cs.length

/-- Reads a reference. -/
def parse? (s : String) : Option TypeRef := ofChars? s.toList

end TypeRef

/-- A text that is not a type reference. -/
structure InvalidTypeRef where
  text : String
deriving DecidableEq, Repr

namespace InvalidTypeRef

/-- What is said of such a text. -/
def message (e : InvalidTypeRef) : String := "'" ++ e.text ++ "' is not a valid type reference"

end InvalidTypeRef

/-- Reads a reference, keeping a text that is none. -/
def TypeRef.parse (s : String) : Except InvalidTypeRef TypeRef :=
  match TypeRef.parse? s with
  | some t => .ok t
  | none => .error ⟨s⟩

end GraphProjection
