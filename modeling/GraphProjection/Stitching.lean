import GraphProjection.Page
import GraphProjection.Projection
import GraphProjection.Storage
import GraphProjection.Value.Text

/-!
# Stitching relations

The relations of a query are loaded after its rows, each with one query of its own: the relation's
query with the condition that the foreign key is among the local keys of the rows.  The related
rows are completed with their own relations first, and then attached to every row whose key they
match, under the name of the relation's field: all of them, the first of them, or a page of them.

Keys are compared by their text, so `1` and `"1"` differ, and a row without its key has the empty
text.
-/

namespace GraphProjection

namespace Stitching

/-- The text of a row's key. -/
def keyText (column : String) (row : Row) : String :=
  match row.get? column with
  | some value => value.text
  | none => ""

/-- The values whose text no earlier value has, nor any of the texts seen before. -/
def distinctByText : List Value → List String → List Value
  | [], _ => []
  | v :: rest, seen =>
    if seen.contains v.text then distinctByText rest seen
    else v :: distinctByText rest (v.text :: seen)

/-- The keys to look for: those of the rows that have one, each once. -/
def keys (column : String) (rows : List Row) : List Value :=
  distinctByText ((rows.filterMap (·.get? column)).filter (!·.isNull)) []

/-- The query of a relation for the keys of some rows. -/
def relatedQuery (target : RelationTarget) (query : SelectQuery) (rows : List Row) : SelectQuery :=
  query.whereIn (query.table ++ "." ++ target.foreignKey) (keys target.localKey rows)

/-- The related rows that belong to a row. -/
def matching (target : RelationTarget) (related : List Row) (row : Row) : List Row :=
  related.filter fun r => keyText target.foreignKey r == keyText target.localKey row

/-- The page of a relation that is exposed in pages. -/
def relationPage (entry : Option RelationEntry) (defaultPerPage : Nat) :
    Except PageError (Option PageRequest) :=
  match entry.bind fun entry => entry.page.map (·, entry.arguments) with
  | none => .ok none
  | some (kind, arguments) => (PageRequest.ofArguments kind arguments defaultPerPage).map some

/-- The rows of a page among all of them. -/
def window (page : PageRequest) (rows : List Row) : List Row :=
  (rows.drop page.offset).take page.limit

/-- What is attached for the related rows that belong to a row. -/
def attachedValue (target : RelationTarget) (page : Option PageRequest) (rows : List Row) :
    Value :=
  match page with
  | some page => page.envelope (window page rows) (some rows.length)
  | none =>
    if target.many then .array (rows.map .object)
    else Value.orNull (rows.head?.map .object)

/-- A row with what belongs to it attached. -/
def attach (target : RelationTarget) (page : Option PageRequest) (related : List Row) (row : Row) :
    Row :=
  row.put target.field (attachedValue target page (matching target related row))

mutual

/-- Completes the rows of a query with its relations. -/
def loadQuery (s : Storage) (defaultPerPage : Nat) :
    SelectQuery → Option Projection → List Row → Traced (List Row)
  | ⟨_, _, _, _, _, _, loads⟩, projection, rows => loadAll s defaultPerPage loads projection rows

/-- Completes rows with relations, one after the other. -/
def loadAll (s : Storage) (defaultPerPage : Nat) :
    List (RelationTarget × SelectQuery) → Option Projection → List Row → Traced (List Row)
  | [], _, rows => .pure rows
  | (target, query) :: rest, projection, rows =>
    let entry := projection.bind (·.relation? target.field)
    (s.traceFetch (relatedQuery target query rows)).andThen fun related =>
      (loadQuery s defaultPerPage query (entry.map (·.2)) related).andThen fun related =>
        match relationPage (entry.map (·.1)) defaultPerPage with
        | .error e => .fail (.page e)
        | .ok page =>
          loadAll s defaultPerPage rest projection (rows.map (attach target page related))

end

end Stitching

end GraphProjection
