import GraphProjection.Page.Cursor
import GraphProjection.Page.Kind
import GraphProjection.Value

/-!
# Pages

A page request is a window on the rows that match: how many rows a page has and how many rows
come before it.  `PageRequest.ofArguments` reads it from the arguments `limit`, `page` and
`cursor`; `PageRequest.envelope` turns the rows fetched for it into the envelope.

Sizes and page numbers are words of 32 bits, offsets and totals words of 64.  Sums of them stop
at the largest word; `satAdd` says so in one place.
-/

namespace GraphProjection

/-- The largest size of a page and the largest page number. -/
def maxSize : Nat := 4294967295

/-- The largest total. -/
def maxCount : Nat := 18446744073709551615

/-- A sum that stops at a bound. -/
def satAdd (bound a b : Nat) : Nat := min (a + b) bound

/-- The arguments that have to be positive whole numbers. -/
inductive PageArgument where
  | limit
  | page
deriving DecidableEq, Repr

namespace PageArgument

/-- The name under which the argument is given. -/
def name : PageArgument → String
  | .limit => "limit"
  | .page => "page"

end PageArgument

/-- Why no page can be read from arguments. -/
inductive PageError where
  | invalidArgument (argument : PageArgument)
  | invalidCursor
deriving DecidableEq, Repr

namespace PageError

/-- What is said of the error. -/
def message : PageError → String
  | .invalidArgument argument => "Argument '" ++ argument.name ++ "' must be a positive integer"
  | .invalidCursor => "The cursor is not valid"

end PageError

/-- The window that a request asks for. -/
structure PageRequest where
  kind : PageKind
  perPage : Nat
  currentPage : Nat
  offset : Nat
deriving DecidableEq, Repr

namespace PageRequest

/-- The positive number of an argument; null is like no argument. -/
def positive? (arguments : Arguments) (argument : PageArgument) : Except PageError (Option Nat) :=
  match arguments.get? argument.name with
  | none | some .null => .ok none
  | some value =>
    match value.asNat? with
    | some n => if 0 < n ∧ n ≤ maxSize then .ok (some n) else .error (.invalidArgument argument)
    | none => .error (.invalidArgument argument)

/-- The offset that the `cursor` argument names; without one, the pages start at the first row. -/
def startOffset (arguments : Arguments) : Except PageError Nat :=
  match arguments.get? "cursor" with
  | none | some .null => .ok 0
  | some (.string cursor) =>
    match Cursor.decode? cursor with
    | some offset => .ok offset
    | none => .error .invalidCursor
  | some _ => .error .invalidCursor

/-- A page with a number: its offset is what the pages before it hold. -/
def numbered (kind : PageKind) (perPage : Nat) (arguments : Arguments) :
    Except PageError PageRequest := do
  let page := (← positive? arguments .page).getD 1
  let offset := (page - 1) * perPage
  if maxOffset < offset then .error (.invalidArgument .page)
  else .ok ⟨kind, perPage, page, offset⟩

/-- The page that arguments ask for. -/
def ofArguments (kind : PageKind) (arguments : Arguments) (defaultPerPage : Nat) :
    Except PageError PageRequest := do
  let perPage := (← positive? arguments .limit).getD defaultPerPage
  match kind with
  | .offset => numbered .offset perPage arguments
  | .simple => numbered .simple perPage arguments
  | .cursor => do
    let offset ← startOffset arguments
    .ok ⟨.cursor, perPage, 1, offset⟩

/-- How many rows to fetch. -/
def limit (p : PageRequest) : Nat := satAdd maxSize p.perPage p.kind.lookahead

/-- Whether the envelope has to know how many rows there are. -/
def needsTotal (p : PageRequest) : Bool := p.kind == .offset

/-- Whether another page follows, given the rows fetched for this one. -/
def hasMore (p : PageRequest) (rows : List Row) (total : Option Nat) : Bool :=
  match p.kind with
  | .offset => total.any (satAdd maxCount p.offset p.perPage < ·)
  | .simple | .cursor => p.perPage < rows.length

/-- A number that may be absent. -/
def count? (n : Option Nat) : Value := Value.orNull (n.map fun n => .int n)

/-- A cursor that may be absent. -/
def cursor? (offset : Option Nat) : Value :=
  Value.orNull (offset.map fun offset => .string (Cursor.encode offset))

/-- The position of the first item of a page with so many items. -/
def firstPosition (p : PageRequest) (items : Nat) : Option Nat :=
  if 0 < items then some (satAdd maxCount p.offset 1) else none

/-- The position of the last item. -/
def lastPosition (p : PageRequest) (items : Nat) : Option Nat :=
  if 0 < items then some (satAdd maxCount p.offset items) else none

/-- The number of the last page: how many pages hold a total, and never less than one. -/
def lastPage (p : PageRequest) (total : Nat) : Nat :=
  let size := max p.perPage 1
  max ((total + size - 1) / size) 1

/-- Where the page before starts. -/
def previousOffset (p : PageRequest) : Option Nat :=
  if 0 < p.offset then some (p.offset - p.perPage) else none

/-- Where the page after starts, as far as a cursor can say. -/
def nextOffset (p : PageRequest) (more : Bool) : Option Nat :=
  if more then (some (satAdd maxCount p.offset p.perPage)).filter (· ≤ maxOffset) else none

/-- The envelope of the rows fetched for a page.  Rows beyond the page only tell that another
page follows. -/
def envelope (p : PageRequest) (rows : List Row) (total : Option Nat) : Value :=
  let more := p.hasMore rows total
  let items := rows.take p.perPage
  let data := Value.array (items.map .object)
  let first := count? (p.firstPosition items.length)
  let last := count? (p.lastPosition items.length)
  match p.kind with
  | .offset =>
    let total := total.getD items.length
    .object [("data", data), ("total", .int total), ("per_page", .int p.perPage),
      ("current_page", .int p.currentPage), ("from", first), ("to", last),
      ("last_page", .int (p.lastPage total)), ("has_more_pages", .bool more)]
  | .simple =>
    .object [("data", data), ("per_page", .int p.perPage), ("current_page", .int p.currentPage),
      ("from", first), ("to", last), ("has_more_pages", .bool more)]
  | .cursor =>
    .object [("data", data), ("per_page", .int p.perPage),
      ("previous_cursor", cursor? p.previousOffset), ("next_cursor", cursor? (p.nextOffset more))]

end PageRequest

end GraphProjection
