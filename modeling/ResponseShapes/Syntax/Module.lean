import ResponseShapes.Syntax.Source

/-!
# What a module imports and exports
-/

namespace ResponseShapes.Syntax

/-- A name that an import lists, and the name it is given. -/
structure ImportSpecifier where
  name : String
  rename : Option String
  /-- The specifier as it is written. -/
  text : String

/-- The name that the importing module uses. An empty one counts as none. -/
def ImportSpecifier.localName (i : ImportSpecifier) : String :=
  match i.rename with
  | some a => if a.isEmpty then i.name else a
  | none => i.name

/-- An import statement. -/
structure Import where
  node : Node
  /-- The module that is imported. -/
  source : String
  specifiers : List ImportSpecifier
  /-- Whether names are listed in braces. -/
  hasNames : Bool
  /-- Whether the module is also bound as a whole or by its default. -/
  hasOtherBindings : Bool

/-- The names that the statement binds by listing them. -/
def Import.localNames (i : Import) : List String :=
  i.specifiers.map (·.localName)

namespace Source

variable (s : Source)

/-- Reads a name of an import list. -/
def importSpecifier (n : Node) : ImportSpecifier :=
  { name := s.partText n .name, rename := (n.child? .rename).map s.textOf, text := s.textOf n }

/-- Reads an import statement. -/
def importOf (n : Node) : Import :=
  let parts := ((n.constructs.find? (·.kind = .importClause)).map Node.constructs).getD []
  let lists := parts.filter (·.kind = .namedImports)
  { node := n
    source := ((n.child? .source).map s.stringValue).getD ""
    specifiers := lists.flatMap fun l => (l.childrenOf .importSpecifier).map s.importSpecifier
    hasNames := !lists.isEmpty
    hasOtherBindings := parts.any (·.kind != .namedImports) }

/-- The imports at the top level, in source order. -/
def imports : List Import :=
  (s.root.childrenOf .importStatement).map s.importOf

/-- The exported constants in the order of their declarations, each with its value. -/
def constantDeclarations : List (String × Node) :=
  (s.root.childrenOf .exportStatement).flatMap fun statement =>
    match statement.child? .declaration with
    | some declaration =>
      if declaration.kind = .lexicalDeclaration then
        (declaration.childrenOf .variableDeclarator).filterMap fun d =>
          match d.child? .name, d.child? .value with
          | some name, some value => some (s.textOf name, value)
          | _, _ => none
      else []
    | none => []

end Source

end ResponseShapes.Syntax
