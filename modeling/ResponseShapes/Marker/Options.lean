import ResponseShapes.Config.Basic
import ResponseShapes.Endpoint.Classification

/-!
# Marker options

A marker is a decorator that asks for documentation. The object that it may be called with overrides what else would
follow from the handler; a marker of lists or of creation sets the option it is named for unless the object does.
-/

namespace ResponseShapes

open Syntax

/-- The options of a marker; a missing one leaves the matter open. -/
structure MarkerOptions where
  description : Option String
  isList : Option Bool
  status : Option String
  unit : Option String
  member : Option String
  deriving DecidableEq, Repr

/-- The value of an option: a text or a truth value. -/
inductive OptionValue
  | text (s : String)
  | truth (b : Bool)
  deriving DecidableEq, Repr

namespace MarkerOptions

/-- No options. -/
def empty : MarkerOptions :=
  { description := none, isList := none, status := none, unit := none, member := none }

/-- The options of `own`, and those of `defaults` where `own` has none. -/
def withDefaults (own defaults : MarkerOptions) : MarkerOptions :=
  { description := own.description.or defaults.description
    isList := own.isList.or defaults.isList
    status := own.status.or defaults.status
    unit := own.unit.or defaults.unit
    member := own.member.or defaults.member }

/-- Sets the option of a key; a key that names no option and a value of the wrong kind set nothing. -/
def set (o : MarkerOptions) (key : String) : OptionValue → MarkerOptions
  | .truth b => if key = "isArray" then { o with isList := some b } else o
  | .text s =>
    match key with
    | "description" => { o with description := some s }
    | "status" => { o with status := some s }
    | "serviceName" => { o with unit := some s }
    | "methodName" => { o with member := some s }
    | _ => o

/-- The value that a literal denotes; a template with substitutions has none. -/
def value? (s : Source) (n : Node) : Option OptionValue :=
  match n.kind with
  | .string => some (.text (s.stringValue n))
  | .templateString =>
    if (n.childrenOf .templateSubstitution).isEmpty then some (.text (s.stringValue n)) else none
  | .true => some (.truth true)
  | .false => some (.truth false)
  | _ => none

/-- The key that a node denotes. -/
def keyText (s : Source) (n : Node) : String :=
  if n.kind = .string then s.stringValue n else s.textOf n

/-- Sets the option that a property of the object gives. -/
def readProperty (s : Source) (o : MarkerOptions) (property : Node) : MarkerOptions :=
  if property.kind = .pair then
    match property.child? .key, property.child? .value with
    | some key, some value =>
      match value? s value with
      | some v => o.set (keyText s key) v
      | none => o
    | _, _ => o
  else o

/-- The options that the arguments of a marker give. -/
def ofArguments (s : Source) : List Node → MarkerOptions
  | argument :: _ => if argument.kind = .object then argument.children.foldl (readProperty s) empty else empty
  | [] => empty

/-- The options of a marker. -/
def ofMarker (conventions : Conventions) (s : Source) (marker : Decorator) : MarkerOptions :=
  let o := ofArguments s marker.arguments
  let o := if marker.name = some conventions.arrayMarker && o.isList.isNone then { o with isList := some true } else o
  if marker.name = some conventions.createdMarker && o.status.isNone then
    { o with status := some Status.created.word }
  else o

end MarkerOptions

end ResponseShapes
