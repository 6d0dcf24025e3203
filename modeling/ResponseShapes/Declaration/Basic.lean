import ResponseShapes.Declaration.Naming
import ResponseShapes.Declaration.Registry
import ResponseShapes.Shape.Basic

/-!
# Declarations of shapes

A shape becomes a list of declarations, each of which stands behind those it refers to: decorators are evaluated
where their class is defined. A record is a class; a record in a field is a class of its own; a list at the top is
another name for the declaration of its elements; anything else is a class around a single value.
-/

namespace ResponseShapes

/-- The type of a property: a plain one given by its shape, or a declared class, perhaps in a list. -/
inductive PropertyType
  | plain (shape : Shape)
  | reference (declaration : String) (inList : Bool)
  deriving Repr

/-- A property of a declared class. -/
structure Property where
  name : String
  type : PropertyType
  deriving Repr

/-- One declaration. -/
inductive Declaration
  /-- A class with properties. -/
  | record (name : String) (properties : List Property)
  /-- A class around a single value. -/
  | value (name : String) (shape : Shape)
  /-- Another name for the declaration of a list's elements. -/
  | list (name item : String)
  deriving Repr

/-- The name that a declaration gives. -/
def Declaration.name : Declaration → String
  | record n _ => n
  | value n _ => n
  | list n _ => n

namespace Declaration

/-- Claims a name for the member that owns the declaration. -/
def claim (owner name : String) : StateM Registry Unit :=
  modify (·.claim name owner)

/-- Closes a record: claims its name and puts it behind the declarations of the records in it. -/
def close (owner name : String) (inner : List Declaration × List Property) :
    StateM Registry (List Declaration) := do
  claim owner name
  return inner.1 ++ [record name inner.2]

mutual

/-- The declarations that a field of the given shape needs, and the property for the field. -/
def ofField (owner parent field : String) : Shape → StateM Registry (List Declaration × Property)
  | .object fields => do
    let child := Naming.child parent field
    let declarations ← close owner child (← ofFields owner child fields)
    return (declarations, { name := field, type := .reference child false })
  | .array (.object fields) => do
    let child := Naming.item (Naming.child parent field)
    let declarations ← close owner child (← ofFields owner child fields)
    return (declarations, { name := field, type := .reference child true })
  | shape => return ([], { name := field, type := .plain shape })
termination_by structural shape => shape

/-- The declarations that a named field needs, and the property for it. -/
def ofNamedField (owner parent : String) : String × Shape → StateM Registry (List Declaration × Property)
  | (field, shape) => ofField owner parent field shape
termination_by structural f => f

/-- The declarations that the fields of a record need, and the properties for them. -/
def ofFields (owner parent : String) :
    List (String × Shape) → StateM Registry (List Declaration × List Property)
  | [] => return ([], [])
  | f :: rest => do
    let (declarations, property) ← ofNamedField owner parent f
    let (more, properties) ← ofFields owner parent rest
    return (declarations ++ more, property :: properties)
termination_by structural fields => fields

end

/-- The declarations of a shape under a name. -/
def ofShape (owner name : String) : Shape → StateM Registry (List Declaration)
  | .object fields => do
    close owner name (← ofFields owner name fields)
  | .array element => do
    let declarations ← ofShape owner (Naming.item name) element
    claim owner name
    return declarations ++ [list name (Naming.item name)]
  | shape => do
    claim owner name
    return [value name shape]

end Declaration

end ResponseShapes
