import GraphProjection.Toml

/-!
# Tables under construction

A document is read statement by statement: a header opens a table, and the keys after it are
written into that table.  What a later statement may still do to a table depends on how the
table came to be, so a table under construction remembers its origin: opened by a header of its
own, only implied by the header of a table inside it, or by a dotted key.  Values, the inline
tables among them, are closed.

A table may be opened once.  A header may still open a table that was only implied by headers; a
dotted key may not add to a table that was opened by a header, nor put a key straight into one
that headers implied.

Tables stand in the order in which they were opened, so a header that opens an implied table
moves it behind all that stands beside it.
-/

namespace GraphProjection.Toml

/-- How a table under construction came to be. -/
inductive Origin where
  | opened
  | implied
  | dotted
deriving DecidableEq, Repr

/-- Part of a document under construction. -/
inductive Draft where
  | closed (value : Toml)
  | table (origin : Origin) (entries : List (String × Draft))
  | tables (items : List (List (String × Draft)))

namespace Draft

mutual

/-- The finished value of a part. -/
def finish : Draft → Toml
  | .closed value => value
  | .table _ entries => .table (finishEntries entries)
  | .tables items => .array (finishTables items)

/-- The finished entries of a table. -/
def finishEntries : List (String × Draft) → List (String × Toml)
  | [] => []
  | (key, part) :: rest => (key, part.finish) :: finishEntries rest

/-- The finished tables of an array of tables. -/
def finishTables : List (List (String × Draft)) → List Toml
  | [] => []
  | entries :: rest => .table (finishEntries entries) :: finishTables rest

end

/-- A table under construction: how it came to be, and its entries. -/
abbrev Open := Origin × Entries Draft

/-- Changes the table at the end of a path.  Tables that are missing on the way come to be with
the given origin; of an array of tables the last one is meant.  A dotted key does not go through
a table that a header has opened. -/
def updateAt (origin : Origin) (change : Open → Option (Entries Draft)) :
    List String → Open → Option (Entries Draft)
  | [], here => change here
  | key :: path, (_, entries) =>
    match entries.get? key with
    | none => (updateAt origin change path (origin, [])).map fun inner =>
        entries.put key (.table origin inner)
    | some (.table own inner) =>
      if origin = .dotted ∧ own = .opened then none
      else (updateAt origin change path (own, inner)).map fun inner =>
        entries.put key (.table own inner)
    | some (.tables items) =>
      (updateAt origin change path (.opened, items.getLast?.getD [])).map fun inner =>
        entries.put key (.tables (items.dropLast ++ [inner]))
    | some (.closed _) => none

/-- Opens a table by its header: a new one, or one that was only implied, with what it holds
already, which leaves its place for the end. -/
def openTable (key : String) : Open → Option (Entries Draft)
  | (_, entries) =>
    match entries.get? key with
    | none => some (entries.put key (.table .opened []))
    | some (.table .implied inner) => some ((entries.erase key).put key (.table .opened inner))
    | some _ => none

/-- Opens another table of an array of tables by its header. -/
def openElement (key : String) : Open → Option (Entries Draft)
  | (_, entries) =>
    match entries.get? key with
    | none => some (entries.put key (.tables [[]]))
    | some (.tables items) => some (entries.put key (.tables (items ++ [[]])))
    | some _ => none

/-- Writes a value under a key, the last one of a key that is `dotted` or stands alone. -/
def writeKey (dotted : Bool) (key : String) (value : Toml) : Open → Option (Entries Draft)
  | (origin, entries) =>
    if dotted ∧ origin ≠ .dotted then none
    else if entries.has key then none
    else some (entries.put key (.closed value))

/-- Writes a value under a key of one or more parts into a table. -/
def writePath (path : List String) (value : Toml) (here : Open) : Option (Entries Draft) :=
  match path.getLast? with
  | none => none
  | some key =>
    let parents := path.dropLast
    updateAt .dotted (writeKey (!parents.isEmpty) key value) parents here

/-- A document under construction: its root table and the path of the table that was opened
last. -/
structure Document where
  root : Entries Draft := []
  current : List String := []

namespace Document

/-- Applies a change to the root table. -/
def changeRoot (d : Document) (current : List String) (path : List String)
    (change : Open → Option (Entries Draft)) : Option Document :=
  (updateAt .implied change path (.opened, d.root)).map fun root => ⟨root, current⟩

/-- Opens the table of a header. -/
def openTable (d : Document) (path : List String) : Option Document :=
  path.getLast?.bind fun key => d.changeRoot path path.dropLast (Draft.openTable key)

/-- Opens the element of a header of an array of tables. -/
def openElement (d : Document) (path : List String) : Option Document :=
  path.getLast?.bind fun key => d.changeRoot path path.dropLast (Draft.openElement key)

/-- Writes a value into the table that was opened last. -/
def write (d : Document) (path : List String) (value : Toml) : Option Document :=
  d.changeRoot d.current d.current (writePath path value)

end Document

end Draft

end GraphProjection.Toml
