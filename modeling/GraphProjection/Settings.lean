/-!
# Settings

What holds for a whole registry: whether the causes of internal errors are shown, how many rows
a page has by default, and what becomes of the columns that are always selected when they lie
behind a relation that nobody asked for.
-/

namespace GraphProjection

/-- What happens to the always-selected columns of a relation that was not requested. -/
inductive AlwaysSelect where
  /-- They are selected only where their type is projected anyway. -/
  | currentLevel
  /-- The relation is loaded after all, with just those columns. -/
  | eagerLoadRelations
deriving DecidableEq, Repr

namespace AlwaysSelect

/-- The policies, in the order in which they are listed to the user. -/
def all : List AlwaysSelect := [.currentLevel, .eagerLoadRelations]

/-- The name of a policy. -/
def name : AlwaysSelect → String
  | .currentLevel => "current_level"
  | .eagerLoadRelations => "eager_load_relations"

/-- The policy of a name. -/
def ofName? (s : String) : Option AlwaysSelect := all.find? (·.name == s)

end AlwaysSelect

/-- The settings of a registry. -/
structure Settings where
  debug : Bool := false
  defaultPerPage : Nat := 15
  alwaysSelect : AlwaysSelect := .currentLevel
deriving DecidableEq, Repr

end GraphProjection
