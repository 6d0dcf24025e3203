import ResponseShapes.Shape.Names
import ResponseShapes.Syntax.Class

/-!
# Inferring shapes

A type annotation and a returned expression are first reduced to what matters for their shape (`TypeForm`,
`ValueForm`); the shape is then computed by recursion on the form. The annotation of a method decides its shape
when it tells one; otherwise the first return statement outside nested functions and classes does.
-/

namespace ResponseShapes

open Syntax

/-- What matters of a type for its shape. -/
inductive TypeForm
  /-- A type in parentheses or a read-only one. -/
  | wrapped (inner : Option TypeForm)
  | array (element : Option TypeForm)
  /-- A record with the types of its plainly named properties. -/
  | record (properties : List (String × Option TypeForm))
  | generic (name : String) (arguments : List TypeForm)
  | named (name : String)
  | predefined (word : String)
  | other

/-- What matters of an expression for its shape. -/
inductive ValueForm
  /-- An expression in parentheses, an awaited one, or one with a type asserted. -/
  | wrapped (inner : Option ValueForm)
  /-- A list, by its first element that is not spread. -/
  | array (first : Option ValueForm)
  /-- A record; a property without a value is given by its name alone. -/
  | record (properties : List (String × Option ValueForm))
  | text
  | number
  | truth
  /-- A value with the one that replaces it when it is missing. -/
  | fallback (right : Option ValueForm)
  /-- A property read from another value. -/
  | property (name : String)
  | other

/-! ### Shapes of forms -/

mutual

/-- The shape of a type. -/
def Shape.ofType : TypeForm → Shape
  | .wrapped inner => Shape.ofTypeOr inner
  | .array element => .array (Shape.ofTypeOr element)
  | .record properties => Shape.ofItems (Shape.ofTypeItems properties)
  | .generic name [argument] =>
    if name = "Array" ∨ name = "ReadonlyArray" then .array (Shape.ofType argument)
    else if name = "Promise" then Shape.ofType argument
    else Shape.ofTypeName name
  | .generic name _ => Shape.ofTypeName name
  | .named name => Shape.ofTypeName name
  | .predefined word => ((Primitive.ofWord? word).map Shape.primitive).getD .unknown
  | .other => .unknown

/-- The shape of a type that may be missing. -/
def Shape.ofTypeOr : Option TypeForm → Shape
  | some t => Shape.ofType t
  | none => .unknown

/-- The names and shapes of the properties of a type. -/
def Shape.ofTypeItems : List (String × Option TypeForm) → List (String × Shape)
  | [] => []
  | (name, t) :: rest => (name, Shape.ofTypeOr t) :: Shape.ofTypeItems rest

end

mutual

/-- The shape of a value. -/
def Shape.ofValue : ValueForm → Shape
  | .wrapped inner => Shape.ofValueOr inner
  | .array first => .array (Shape.ofValueOr first)
  | .record properties => Shape.ofItems (Shape.ofValueItems properties)
  | .text => .string
  | .number => .number
  | .truth => .boolean
  | .fallback right => Shape.ofValueOr right
  | .property name => Shape.ofProperty name
  | .other => .unknown

/-- The shape of a value that may be missing. -/
def Shape.ofValueOr : Option ValueForm → Shape
  | some v => Shape.ofValue v
  | none => .unknown

/-- The names and shapes of the properties of a value. -/
def Shape.ofValueItems : List (String × Option ValueForm) → List (String × Shape)
  | [] => []
  | (name, some v) :: rest => (name, Shape.ofValue v) :: Shape.ofValueItems rest
  | (name, none) :: rest => (name, Shape.ofShorthand name) :: Shape.ofValueItems rest

end

/-! ### Forms of nodes -/

/-- The node in the part `r` among nodes that carry values. -/
def valuedChild? {α : Type} (r : Role) (children : List (Node × α)) : Option (Node × α) :=
  children.find? (·.1.role == some r)

/-- The first construct among nodes that carry values. -/
def valuedFirst? {α : Type} (children : List (Node × α)) : Option (Node × α) :=
  children.find? (·.1.isConstruct)

/-- What a node holds for the form of a type: the types directly in it, and the properties it declares. -/
structure TypeParts where
  /-- The node itself as a type. -/
  form : TypeForm
  /-- The types directly below. -/
  inner : List TypeForm
  /-- The property that the node declares. -/
  property : Option (String × Option TypeForm)

/-- The property that a member of an object type declares, if its name is a plain word. -/
def propertyOf (s : Source) (n : Node) (children : List (Node × TypeParts)) :
    Option (String × Option TypeForm) :=
  if n.kind = .propertySignature then
    match n.child? .name with
    | some name =>
      if name.kind = .propertyIdentifier then
        some (s.textOf name, (valuedChild? .type children).bind (·.2.inner.head?))
      else none
    | none => none
  else none

/-- The form of a type from the forms below it. -/
def typeForm (s : Source) (n : Node) (children : List (Node × TypeParts)) : TypeForm :=
  match n.kind with
  | .parenthesizedType | .readonlyType => .wrapped ((valuedFirst? children).map (·.2.form))
  | .arrayType => .array ((valuedFirst? children).map (·.2.form))
  | .objectType => .record (children.filterMap (·.2.property))
  | .genericType =>
    .generic (s.partText n .name) (((valuedChild? .typeArguments children).map (·.2.inner)).getD [])
  | .typeIdentifier => .named (s.textOf n)
  | .predefinedType => .predefined (Text.trim (s.textOf n))
  | _ => .other

/-- What a node holds for the form of a type. -/
def typeParts (s : Source) : Node → TypeParts :=
  Node.fold fun n children =>
    { form := typeForm s n children
      inner := (children.filter (·.1.isConstruct)).map (·.2.form)
      property := propertyOf s n children }

/-- The form of a type. -/
def TypeForm.ofNode (s : Source) (n : Node) : TypeForm :=
  (typeParts s n).form

/-- What a node holds for the form of a value: its own form, and the property that it gives. -/
structure ValueParts where
  form : ValueForm
  /-- The property that the node gives to the record it stands in. -/
  property : Option (String × Option ValueForm)

/-- The property that a part of an object literal gives, unless its name is computed or a number. -/
def givenProperty (s : Source) (n : Node) (children : List (Node × ValueParts)) :
    Option (String × Option ValueForm) :=
  match n.kind with
  | .pair =>
    match n.child? .key, valuedChild? .value children with
    | some key, some value =>
      if key.kind = .propertyIdentifier then some (s.textOf key, some value.2.form)
      else if key.kind = .string then some (s.stringValue key, some value.2.form)
      else none
    | _, _ => none
  | .shorthandPropertyIdentifier => some (s.textOf n, none)
  | _ => none

/-- The form of a value from the forms below it. -/
def valueForm (s : Source) (n : Node) (children : List (Node × ValueParts)) : ValueForm :=
  match n.kind with
  | .parenthesizedExpression | .awaitExpression | .asExpression | .satisfiesExpression | .nonNullExpression =>
    .wrapped ((valuedFirst? children).map (·.2.form))
  | .array =>
    .array ((children.find? fun c => c.1.isConstruct && c.1.kind != .spreadElement).map (·.2.form))
  | .object => .record (children.filterMap (·.2.property))
  | .string | .templateString => .text
  | .number => .number
  | .true | .false => .truth
  | .binaryExpression =>
    if s.partText n .operator = "||" then .fallback ((valuedChild? .right children).map (·.2.form)) else .other
  | .memberExpression => .property (s.partText n .property)
  | _ => .other

/-- What a node holds for the form of a value. -/
def valueParts (s : Source) : Node → ValueParts :=
  Node.fold fun n children => { form := valueForm s n children, property := givenProperty s n children }

/-- The form of a value. -/
def ValueForm.ofNode (s : Source) (n : Node) : ValueForm :=
  (valueParts s n).form

/-! ### Return statements -/

/-- Constructs whose return statements are their own. -/
def isScope : Kind → Bool
  | .arrowFunction | .functionExpression | .functionDeclaration | .generatorFunction | .generatorFunctionDeclaration
  | .methodDefinition | .classDeclaration | .classExpression => true
  | _ => false

/-- Visits the nodes on a stack and those below them, each before what is below it and at most `steps` in all. Of a
    node for which `closed` holds nothing below is visited. -/
def walkFrom (closed : Node → Bool) : Nat → List Node → List Node
  | 0, _ => []
  | _, [] => []
  | steps + 1, n :: stack => n :: walkFrom closed steps (if closed n then stack else n.children ++ stack)

/-- The nodes of a tree, each before what is below it. Scopes of the kinds `stop` below the root are visited but not
    entered. -/
def walk (stop : Kind → Bool) (root : Node) : List Node :=
  root :: walkFrom (fun n => stop n.kind) root.size root.children

/-- The return statements of a body, without those of the functions and classes in it. -/
def returnStatements (body : Node) : List Node :=
  (walk isScope body).filter (·.kind = .returnStatement)

/-- The shape of what a method returns. -/
def Shape.ofMethod (s : Source) (m : Method) : Shape :=
  let annotated :=
    match m.returnType? with
    | some t => Shape.ofType (TypeForm.ofNode s t)
    | none => .unknown
  if annotated.isUnknown then
    match m.body?.bind fun body => (returnStatements body).head?.bind Node.firstConstruct? with
    | some value => Shape.ofValue (ValueForm.ofNode s value)
    | none => .unknown
  else annotated

end ResponseShapes
