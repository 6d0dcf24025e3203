import ResponseShapes.Text.Case
import ResponseShapes.Text.Blank

/-!
# Names of declarations

Every name is made from the names of the unit and its member and from the fields on the way to a nested record, so
that the order of methods in a source decides no name.
-/

namespace ResponseShapes

/-- The stem of a name with a suffix; none when the suffix is missing or there is no stem. An empty suffix leaves an
    empty stem. -/
def stem? (suffix name : String) : Option String :=
  if !Text.endsWith name suffix || name.length = suffix.length then none
  else if suffix.isEmpty then some ""
  else some (Text.dropEnd name suffix.length)

/-- The end of the file names of declaration modules. -/
def moduleSuffix : String := ".response.ts"

/-- The naming of declarations, by the suffix that they all take. -/
structure Naming where
  responseSuffix : String

namespace Naming

/-- The declaration of what a member of a unit returns. -/
def declaration (naming : Naming) (unit member : String) : String :=
  unit ++ Text.capitalize member ++ naming.responseSuffix

/-- The declaration of the elements of a list. -/
def item (declaration : String) : String :=
  declaration ++ "Item"

/-- The declaration of a record in a field. -/
def child (parent field : String) : String :=
  parent ++ Text.capitalize field

/-- The object that holds all declarations of a unit. -/
def lookup (naming : Naming) (unit : String) : String :=
  unit ++ naming.responseSuffix

/-- The type of that object. -/
def lookupType (lookup : String) : String :=
  lookup ++ "Type"

/-- The file of a unit's declarations. -/
def fileName (unit : String) : String :=
  Text.lower unit ++ moduleSuffix

/-- The name by which another module imports that file. -/
def specifier (unit : String) : String :=
  Text.lower unit ++ Text.dropEnd moduleSuffix 3

end Naming

end ResponseShapes
