import GraphProjection.Text.Suffix

/-!
# Page envelopes

A field whose items come in pages returns an envelope: the items under `data`, beside them what
there is to say about the page.  There are three kinds.  An offset envelope numbers the pages
and knows how many there are; a simple one numbers them without counting; a cursor one only
knows how to go back and forth.

Each registered type has one envelope type of each kind, whose name is the type's own with the
suffix of the kind behind it.
-/

namespace GraphProjection

/-- The three kinds of page envelope. -/
inductive PageKind where
  | offset
  | simple
  | cursor
deriving DecidableEq, Repr

/-- A field of an envelope: its name, its type for a given item type, and what it holds. -/
structure EnvelopeField where
  name : String
  type : String → String
  description : String

namespace EnvelopeField

/-- The items. -/
def data : EnvelopeField :=
  ⟨"data", fun item => "[" ++ item ++ "!]!", "List of items on the current page"⟩

/-- How many rows there are in all. -/
def total : EnvelopeField :=
  ⟨"total", fun _ => "Int!", "Number of total items selected by the query"⟩

/-- The size of a page. -/
def perPage : EnvelopeField :=
  ⟨"per_page", fun _ => "Int!", "Number of items returned per page"⟩

/-- The number of the page, from one. -/
def currentPage : EnvelopeField :=
  ⟨"current_page", fun _ => "Int!", "Current page of the cursor"⟩

/-- The position of the first item, from one. -/
def firstItem : EnvelopeField :=
  ⟨"from", fun _ => "Int", "Number of the first item returned"⟩

/-- The position of the last item. -/
def lastItem : EnvelopeField :=
  ⟨"to", fun _ => "Int", "Number of the last item returned"⟩

/-- The number of the last page. -/
def lastPage : EnvelopeField :=
  ⟨"last_page", fun _ => "Int!", "The last page (number of pages)"⟩

/-- Whether another page follows. -/
def hasMorePages : EnvelopeField :=
  ⟨"has_more_pages", fun _ => "Boolean!",
    "Determines if cursor has more pages after the current page"⟩

/-- The cursor of the page before. -/
def previousCursor : EnvelopeField :=
  ⟨"previous_cursor", fun _ => "String", "Previous page cursor"⟩

/-- The cursor of the page after. -/
def nextCursor : EnvelopeField :=
  ⟨"next_cursor", fun _ => "String", "Next page cursor"⟩

end EnvelopeField

namespace PageKind

/-- The kinds in the order in which their suffixes are tried: one suffix is an ending of the two
others, so it comes last. -/
def all : List PageKind := [.cursor, .simple, .offset]

/-- The name of a kind. -/
def name : PageKind → String
  | .offset => "offset"
  | .simple => "simple"
  | .cursor => "cursor"

/-- The kind of a name. -/
def ofName? (s : String) : Option PageKind := all.find? (·.name == s)

/-- What an envelope type's name has behind the item type's. -/
def suffix : PageKind → String
  | .offset => "Pagination"
  | .simple => "SimplePagination"
  | .cursor => "CursorPagination"

/-- The name of the envelope type of an item type. -/
def typeName (kind : PageKind) (item : String) : String := item ++ kind.suffix

/-- The item type's name, if a name is that of an envelope of this kind. -/
def item? (kind : PageKind) (name : String) : Option String :=
  (Text.dropSuffix? kind.suffix.toList name.toList).map String.ofList

theorem item?_eq_some_iff {kind : PageKind} {name item : String} :
    kind.item? name = some item ↔ name = kind.typeName item := by
  simp only [item?, Option.map_eq_some_iff, Text.dropSuffix?_eq_some_iff, typeName,
    ← String.toList_inj, String.toList_append]
  constructor
  · rintro ⟨rest, h, hi⟩
    rw [h, ← hi, String.toList_ofList]
  · intro h
    exact ⟨item.toList, h, by simp⟩

/-- The fields of an envelope, in order. -/
def fields : PageKind → List EnvelopeField
  | .offset => [.data, .total, .perPage, .currentPage, .firstItem, .lastItem, .lastPage,
      .hasMorePages]
  | .simple => [.data, .perPage, .currentPage, .firstItem, .lastItem, .hasMorePages]
  | .cursor => [.data, .perPage, .previousCursor, .nextCursor]

/-- Whether an envelope has a field. -/
def hasField (kind : PageKind) (name : String) : Bool := kind.fields.any (·.name == name)

/-- How many rows are fetched beyond the page, to see whether another page follows. -/
def lookahead : PageKind → Nat
  | .offset => 0
  | .simple | .cursor => 1

/-- A field as it stands in a schema, under its description. -/
def fieldDefinition (item : String) (field : EnvelopeField) : String :=
  "  \"" ++ field.description ++ "\"\n  " ++ field.name ++ ": " ++ field.type item

/-- The envelope type as it stands in a schema. -/
def definition (kind : PageKind) (item : String) : String :=
  "type " ++ kind.typeName item ++ " \x7b\n" ++
    String.intercalate "\n\n" (kind.fields.map (fieldDefinition item)) ++ "\n\x7d"

end PageKind

end GraphProjection
