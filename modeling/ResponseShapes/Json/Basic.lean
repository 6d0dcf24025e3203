import ResponseShapes.Entries
import ResponseShapes.Number.Binary64

/-!
# JSON values

The values that a JSON text denotes. A number without point and exponent is whole; any other is the nearest number of
the binary format.
-/

namespace ResponseShapes

/-- A value of a JSON text. -/
inductive Json
  | null
  | bool (b : Bool)
  | int (i : Int)
  | float (x : Binary64)
  | text (s : String)
  | list (items : List Json)
  | object (entries : List (String × Json))
  deriving Repr

namespace Json

/-- The value under a key of an object. -/
def get? (key : String) : Json → Option Json
  | object entries => Entries.get? key entries
  | _ => none

/-- Whether the value equals the number one; the true value does. -/
def isOne : Json → Bool
  | bool b => b
  | int i => i = 1
  | float x => x = Binary64.ofQuotient false 1 1
  | _ => false

/-- Whether the value is the given text. -/
def isText (s : String) : Json → Bool
  | text t => t = s
  | _ => false

end Json

end ResponseShapes
