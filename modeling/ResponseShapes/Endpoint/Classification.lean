import ResponseShapes.Syntax.Class
import ResponseShapes.Text.Case

/-!
# Classifying handlers

The HTTP verb, the status and the listing nature of a handler follow from its decorators and its name.
-/

namespace ResponseShapes

/-- The status a handler answers with. A table that was not made here may hold any other word. -/
inductive Status
  | ok
  | created
  | other (word : String)
  deriving DecidableEq, Repr

namespace Status

/-- The status as it is written. -/
def word : Status → String
  | ok => "ok"
  | created => "created"
  | other w => w

/-- The status that a word stands for. -/
def ofWord (w : String) : Status :=
  if w = "ok" then ok else if w = "created" then created else other w

/-- The status that is asked for explicitly; blanks and case do not matter, and other words ask for nothing. -/
def requested? (text : String) : Option Status :=
  match ofWord (Text.lower (Text.trim text)) with
  | other _ => none
  | status => some status

/-- The status that the verb of a handler implies. -/
def ofVerb (verb : Option String) (createVerb : String) : Status :=
  if verb = some createVerb then created else ok

end Status

/-- The verb of a handler: the name of its first decorator that names one. -/
def Syntax.Method.verb? (m : Syntax.Method) (verbs : List String) : Option String :=
  m.decoratorNames.find? verbs.contains

/-- Whether a handler returns a bare list, by its name. A handler of pages returns a record, whatever its name begins
    with. -/
def returnsList (handler : String) : Bool :=
  let name := Text.lower handler
  !(["paginated", "paged"].any (Text.contains name)) &&
    ["findall", "getall", "listall"].any fun start => start.toList.isPrefixOf name.toList

end ResponseShapes
