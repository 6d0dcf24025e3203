import ResponseShapes.Entries

/-!
# Shapes

The shape of what a method returns: a primitive value, a list of one shape, a record with named fields, or nothing
that is known.
-/

namespace ResponseShapes

/-- The kinds of single values. -/
inductive Primitive
  | string | number | boolean
  deriving DecidableEq, Repr

namespace Primitive

/-- The word that TypeScript has for the kind. -/
def word : Primitive → String
  | string => "string"
  | number => "number"
  | boolean => "boolean"

/-- The kind that a word stands for. -/
def ofWord? : String → Option Primitive
  | "string" => some string
  | "number" => some number
  | "boolean" => some boolean
  | _ => none

theorem ofWord?_word (p : Primitive) : ofWord? p.word = some p := by
  cases p <;> rfl

end Primitive

/-- What a method returns. -/
inductive Shape
  | primitive (kind : Primitive)
  | array (element : Shape)
  | object (fields : List (String × Shape))
  | unknown
  deriving Repr, BEq, Inhabited

namespace Shape

/-- A text. -/
abbrev string : Shape := primitive .string

/-- A number. -/
abbrev number : Shape := primitive .number

/-- A truth value. -/
abbrev boolean : Shape := primitive .boolean

/-- A record of the items; a repeated name keeps its first place and its last shape. -/
def ofItems (items : List (String × Shape)) : Shape :=
  object (Entries.ofList items)

/-- Whether nothing is known of the value. -/
def isUnknown : Shape → Bool
  | unknown => true
  | _ => false

end Shape

end ResponseShapes
