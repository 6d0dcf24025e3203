import ResponseShapes.Config.Basic
import ResponseShapes.Declaration.Basic
import ResponseShapes.Shape.Names
import ResponseShapes.Text.JsonString

/-!
# Declaration modules

The text of the module that declares what the members of a unit return: a banner, the import of the property
decorator, the declarations of each member in turn, and the lookup object from members to declarations.
-/

namespace ResponseShapes

/-- A member of a unit with the shape of what it returns and the name of its declaration. -/
structure Member where
  name : String
  shape : Shape
  declaration : String
  deriving Repr

/-- The members of a unit whose shapes were inferred. -/
structure UnitAnalysis where
  unit : String
  path : Path
  members : List Member
  deriving Repr

/-! ### Properties -/

/-- A value that stands for a field in documentation. -/
inductive Sample
  | text (s : String)
  | number (n : Nat)
  | truth
  deriving DecidableEq, Repr

/-- The sample as it is written. -/
def Sample.literal : Sample → String
  | text s => Text.jsonString s
  | number n => toString n
  | truth => "true"

/-- The sample for a field of a single value, after the field's name. -/
def Sample.of (name : String) : Primitive → Sample
  | .string =>
    let has := Text.contains (Text.lower name)
    .text <|
      if has "email" then "user@example.com"
      else if has "name" then "example name"
      else if has "password" then "password123"
      else if has "role" then "user"
      else "example value"
  | .number => .number (if Shape.isIdLike name then 1 else 0)
  | .boolean => .truth

/-- The sample for a field; only single values have one. -/
def Sample.ofShape? (name : String) : Shape → Option Sample
  | .primitive p => some (of name p)
  | _ => none

/-- The type of a value of the shape; a record is not spelled out. -/
def Shape.typeText : Shape → String
  | .primitive p => p.word
  | .array e => e.typeText ++ "[]"
  | .object _ => "object"
  | .unknown => "any"

/-- Characters that a key may begin with when it is not quoted. -/
def isKeyStart (c : Char) : Bool :=
  c.isAlpha || c == '_' || c == '$'

/-- Whether a name can stand as a key without quotes. A line feed at its end does not matter. -/
def isPlainKey (name : String) : Bool :=
  match name.toList with
  | [] => false
  | c :: cs =>
    let line := if cs.getLast? = some '\n' then cs.dropLast else cs
    isKeyStart c && line.all fun d => isKeyStart d || d.isDigit

/-- A name as the key of an object or a class. -/
def propertyKey (name : String) : String :=
  if isPlainKey name then name else Text.jsonString name

/-! ### Texts -/

/-- The first line of everything that is generated. -/
def banner : String := "// Generated by shapegen. Do not edit by hand."

namespace Documentation

/-- The property decorator with its options. -/
def decorated (docs : Documentation) (options : List String) : String :=
  if options.isEmpty then "@" ++ docs.propertyDecorator ++ "()"
  else "@" ++ docs.propertyDecorator ++ "(\x7b " ++ String.intercalate ", " options ++ " \x7d)"

/-- The options that document a plain property. -/
def plainOptions (name : String) : Shape → List String
  | .primitive p => ["example: " ++ (Sample.of name p).literal, "type: '" ++ p.word ++ "'"]
  | .array (.primitive p) => ["type: '" ++ p.word ++ "'", "isArray: true"]
  | .array _ => ["isArray: true"]
  | _ => []

/-- A property with its decorator. -/
def property (docs : Documentation) (p : Property) : String :=
  let (options, type) :=
    match p.type with
    | .plain shape => (plainOptions p.name shape, shape.typeText)
    | .reference declaration inList =>
      (("type: " ++ declaration) :: (if inList then ["isArray: true"] else []),
       declaration ++ (if inList then "[]" else ""))
  "  " ++ docs.decorated options ++ "\n  " ++ propertyKey p.name ++ ": " ++ type ++ ";"

/-- A declaration as it is written. -/
def block (docs : Documentation) : Declaration → String
  | .record name [] => "export class " ++ name ++ " \x7b\x7d"
  | .record name properties =>
    "export class " ++ name ++ " \x7b\n" ++ String.intercalate "\n\n" (properties.map docs.property) ++ "\n\x7d"
  | .value name shape =>
    "export class " ++ name ++ " \x7b\n" ++
      (if shape.isUnknown then "  // Return type could not be inferred\n" else "") ++
      docs.property { name := "value", type := .plain shape } ++ "\n\x7d"
  | .list name item =>
    "// Use [" ++ item ++ "] in @" ++ docs.okDecorator ++ " for array responses\n" ++
      "export const " ++ name ++ " = " ++ item ++ ";\n" ++
      "export type " ++ name ++ " = " ++ item ++ ";"

end Documentation

/-! ### Modules -/

/-- A module of declarations. -/
structure DeclarationModule where
  unit : String
  fileName : String
  lookup : String
  text : String
  collisions : List Collision
  deriving Repr

/-- The declarations of a member. -/
def Member.declarations (m : Member) : StateM Registry (List Declaration) :=
  Declaration.ofShape m.name m.declaration m.shape

/-- The declarations of each of several members. -/
def membersDeclarations (members : List Member) : StateM Registry (List (List Declaration)) :=
  members.mapM Member.declarations

/-- The lookup object of a unit and its type. -/
def lookupText (lookup : String) (members : List Member) : String :=
  let entries := members.map fun m => "  " ++ propertyKey m.name ++ ": " ++ m.declaration ++ ","
  "export const " ++ lookup ++ " = \x7b\n" ++ String.intercalate "\n" entries ++ "\n\x7d as const;\n\n" ++
    "export type " ++ Naming.lookupType lookup ++ " = typeof " ++ lookup ++ ";"

/-- The module of a unit; none for a unit without members. -/
def DeclarationModule.of? (naming : Naming) (docs : Documentation) (unit : String) (members : List Member) :
    Option DeclarationModule :=
  if members.isEmpty then none
  else
    let (declarations, registry) := (membersDeclarations members).run Registry.empty
    let lookup := naming.lookup unit
    let sections :=
      [banner, "import \x7b " ++ docs.propertyDecorator ++ " \x7d from '" ++ docs.module ++ "';", "",
       String.intercalate "\n\n" (declarations.flatten.map docs.block), "", lookupText lookup members]
    some
      { unit, fileName := Naming.fileName unit, lookup
        text := String.intercalate "\n" sections ++ "\n"
        collisions := registry.collisions }

end ResponseShapes
