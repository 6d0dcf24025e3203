import ResponseShapes.Shape.Basic
import ResponseShapes.Text.Blank
import ResponseShapes.Text.Case

/-!
# What names tell about shapes

The name of a property hints at its shape, and a few names of types stand for records that are known in advance.
-/

namespace ResponseShapes.Shape

/-- Whether a text ends with one of the endings. -/
def endsWithAny (endings : List String) (name : String) : Bool :=
  endings.any (Text.endsWith name)

/-- Whether the name is that of an identifier or of several: `id` in any case, `ids`, `userId`, `user_id`,
    `parentIDs` and the like. A line feed at the end is not part of the name. -/
def isIdLike (name : String) : Bool :=
  let line := if Text.endsWith name "\n" then Text.dropEnd name 1 else name
  line == "id" || line == "ids" || endsWithAny ["Id", "ID", "_id", "Ids", "IDs", "_ids"] line ||
    Text.lower name == "id"

/-- Whether the name is that of a mail address. -/
def isEmailLike (name : String) : Bool :=
  Text.contains (Text.lower name) "email"

/-- The shape of a property that is given by its name alone. -/
def ofShorthand (name : String) : Shape :=
  if name = "id" then number else string

/-- The shape of a property that is read from another value. -/
def ofProperty (name : String) : Shape :=
  if isEmailLike name then string else if isIdLike name then number else string

/-- The record of a user. -/
def user : Shape :=
  object [("id", number), ("firstname", string), ("lastname", string), ("email", string), ("role", string)]

/-- The records that have a name in advance. -/
def known : List (String × Shape) :=
  [("User", user),
   ("CreateUserDto", object
    [("firstname", string), ("lastname", string), ("email", string), ("password", string), ("role", string)]),
   ("UpdateUserDto", object [("firstname", string), ("lastname", string), ("email", string), ("role", string)])]

/-- A page of users with what is known about the pages. -/
def page : Shape :=
  object
    [("data", array user),
     ("meta", object
      [("page", number), ("limit", number), ("total", number), ("totalPages", number), ("hasNext", boolean),
       ("hasPrev", boolean)])]

/-- The record that stands for a name that is not known. -/
def anyRecord : Shape :=
  object [("id", number)]

/-- The shape of a named type whose name has no brackets behind it. -/
def ofPlainName (name : String) : Shape :=
  match Entries.get? name known with
  | some shape => shape
  | none => if Text.contains name "Paginated" then page else anyRecord

/-- Removes the brackets behind a name, given in reverse, and counts them. -/
def stripBrackets : List Char → Nat × List Char
  | ']' :: '[' :: cs => ((stripBrackets cs).1 + 1, (stripBrackets cs).2)
  | cs => (0, cs)

/-- A list of lists, `depth` deep. -/
def nested : Nat → Shape → Shape
  | 0, shape => shape
  | depth + 1, shape => array (nested depth shape)

/-- The shape of a named type; each pair of brackets behind the name makes a list. -/
def ofTypeName (name : String) : Shape :=
  let (depth, rest) := stripBrackets name.toList.reverse
  nested depth (ofPlainName (String.ofList rest.reverse))

end ResponseShapes.Shape
