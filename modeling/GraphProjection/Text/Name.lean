/-!
# Names

The names of types, fields, arguments and variables: an ASCII letter or an underscore, followed
by ASCII letters, digits and underscores.
-/

namespace GraphProjection.Text

/-- Whether a name may start with a character. -/
def isNameStart (c : Char) : Bool := c.isAlpha || c == '_'

/-- Whether a name may go on with a character. -/
def isNamePart (c : Char) : Bool := c.isAlphanum || c == '_'

/-- Whether a text is a name. -/
def isName : List Char → Bool
  | [] => false
  | c :: rest => isNameStart c && rest.all isNamePart

end GraphProjection.Text
