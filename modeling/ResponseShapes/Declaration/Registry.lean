import ResponseShapes.Entries
import ResponseShapes.Log

/-!
# Claimed names

A registry tells which member first claimed each name of a module. A name that is claimed again is reported and not
changed, since no rule says which of the two declarations should give way.
-/

namespace ResponseShapes

/-- A name that two members claim. -/
structure Collision where
  name : String
  first : String
  second : String
  deriving DecidableEq, Repr

/-- The names claimed so far with their owners, and the collisions in the order in which they arose. -/
structure Registry where
  owners : Entries String
  collisions : List Collision
  deriving Repr

namespace Registry

/-- A registry in which nothing is claimed. -/
def empty : Registry :=
  { owners := [], collisions := [] }

/-- Whether a name is claimed. -/
def has (r : Registry) (name : String) : Bool :=
  (Entries.get? name r.owners).isSome

/-- Claims a name for an owner. -/
def claim (r : Registry) (name owner : String) : Registry :=
  match Entries.get? name r.owners with
  | none => { r with owners := r.owners ++ [(name, owner)] }
  | some first => { r with collisions := r.collisions ++ [{ name, first, second := owner }] }

end Registry

/-- The warning about a collision in the module of a unit. -/
def Collision.row (unit : String) (c : Collision) : LogRow :=
  { level := .warning, reporter := .naming
    text := s!"Declaration name {c.name} in {unit} is produced by both {c.first} and {c.second}" }

end ResponseShapes
