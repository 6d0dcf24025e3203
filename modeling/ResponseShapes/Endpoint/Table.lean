import ResponseShapes.Config.Basic
import ResponseShapes.Endpoint.Classification
import ResponseShapes.Entries

/-!
# The lookup table

The table pairs the handlers of endpoint classes with the declarations of what they return: the units whose
declarations exist, and for each endpoint the handlers that one of their members answers.
-/

namespace ResponseShapes

/-- A unit whose declarations exist: its lookup object, its module, and the declaration of each member. -/
structure DeclaredUnit where
  unit : String
  lookup : String
  module : Path
  members : Entries String
  deriving DecidableEq, Repr

/-- What is known of a handler's answer. -/
structure Mapping where
  endpoint : String
  handler : String
  unit : String
  member : String
  declaration : String
  /-- The expression that denotes the declaration. -/
  reference : String
  isList : Bool
  status : Status
  verb : Option String
  deriving DecidableEq, Repr

/-- An endpoint class with the unit it is paired with and its handlers. -/
structure EndpointUnit where
  key : String
  className : String
  unit : String
  path : Path
  handlers : Entries Mapping
  deriving DecidableEq, Repr

/-- The declared units and the endpoints, by name and by key. -/
structure LookupTable where
  declared : Entries DeclaredUnit
  endpoints : Entries EndpointUnit
  deriving DecidableEq, Repr

namespace LookupTable

/-- A table without anything in it. -/
def empty : LookupTable :=
  { declared := [], endpoints := [] }

/-- The mapping of a handler of an endpoint. -/
def get? (t : LookupTable) (key handler : String) : Option Mapping :=
  match Entries.get? key t.endpoints with
  | some e => Entries.get? handler e.handlers
  | none => none

/-- The declared unit of a name. -/
def unit? (t : LookupTable) (name : String) : Option DeclaredUnit :=
  Entries.get? name t.declared

/-- The number of endpoints with a handler in the table. -/
def wired (t : LookupTable) : Nat :=
  (t.endpoints.filter fun e => !e.2.handlers.isEmpty).length

end LookupTable

end ResponseShapes
