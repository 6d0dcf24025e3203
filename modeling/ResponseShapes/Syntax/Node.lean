/-!
# Concrete syntax trees

A node covers the characters from `start` up to, but without, `stop` of the text it was read from. Words and signs
that only separate or enclose have no node of their own; operators and the modifiers of members are kept as
`Kind.token`. Comments stand among the children of the node they lie in.
-/

namespace ResponseShapes.Syntax

/-- What a node stands for. -/
inductive Kind
  | program | comment | token
  -- modules
  | exportStatement | importStatement | importClause | namedImports | namespaceImport | importSpecifier
  | importRequireClause | importAlias | importAttribute | exportClause | exportSpecifier | namespaceExport
  -- declarations
  | functionDeclaration | generatorFunctionDeclaration | functionSignature | classDeclaration
  | abstractClassDeclaration | lexicalDeclaration | variableDeclaration | variableDeclarator | enumDeclaration
  | enumBody | interfaceDeclaration | typeAliasDeclaration | ambientDeclaration | namespaceDeclaration
  -- classes
  | classExpression | classHeritage | classBody | decorator | methodDefinition | methodSignature | fieldDefinition
  | staticBlock | accessibilityModifier
  -- statements
  | statementBlock | expressionStatement | ifStatement | switchStatement | switchBody | switchCase | forStatement
  | forInStatement | whileStatement | doStatement | tryStatement | catchClause | finallyClause | withStatement
  | breakStatement | continueStatement | debuggerStatement | returnStatement | throwStatement | labeledStatement
  | emptyStatement
  -- names
  | identifier | propertyIdentifier | privatePropertyIdentifier | shorthandPropertyIdentifier
  | computedPropertyName | labelIdentifier
  -- literals
  | string | templateString | templateSubstitution | number | regex | true | false | null | undefined | this | super
  | array | object | pair | spreadElement | defaultedShorthand
  -- expressions
  | arrowFunction | functionExpression | generatorFunction | parenthesizedExpression | sequenceExpression
  | assignmentExpression | ternaryExpression | binaryExpression | unaryExpression | updateExpression
  | awaitExpression | yieldExpression | newExpression | callExpression | arguments | memberExpression
  | subscriptExpression | nonNullExpression | asExpression | satisfiesExpression | typeAssertion
  | instantiationExpression | metaProperty | importExpression
  -- patterns and parameters
  | objectPattern | arrayPattern | restPattern | assignmentPattern | pairPattern | formalParameters | parameter
  -- types
  | annotatedType | annotatedAssertion | annotatedPredicate | typeArguments | typeParameters | typeParameter
  | typeIdentifier | nestedTypeIdentifier | genericType | predefinedType | parenthesizedType | readonlyType
  | arrayType | lookupType | tupleType | tupleElement | objectType | functionType | constructorType | unionType
  | intersectionType | conditionalType | literalType | templateLiteralType | typeQuery | indexTypeQuery | inferType
  | thisType | importType | propertySignature | callSignature | constructSignature | indexSignature
  deriving DecidableEq, Repr

/-- The part a node plays in its parent. -/
inductive Role
  | name | rename | source | declaration | body | value | key | type | returnType | typeArguments
  | function | arguments | property | operator | left | right
  deriving DecidableEq, Repr

/-- A node with its kind, the part it plays, the characters it covers and its children in source order. -/
inductive Node
  | mk (kind : Kind) (role : Option Role) (start stop : Nat) (children : List Node)
  deriving Repr

namespace Node

/-- What the node stands for. -/
def kind : Node → Kind
  | mk k _ _ _ _ => k

/-- The part the node plays in its parent. -/
def role : Node → Option Role
  | mk _ r _ _ _ => r

/-- The position of the first character. -/
def start : Node → Nat
  | mk _ _ a _ _ => a

/-- The position after the last character. -/
def stop : Node → Nat
  | mk _ _ _ b _ => b

/-- The nodes directly below, in source order. -/
def children : Node → List Node
  | mk _ _ _ _ cs => cs

/-- The node in the part `r`; a part that was given before stays. -/
def withRole (r : Role) : Node → Node
  | mk k none a b cs => mk k (some r) a b cs
  | n => n

/-- Whether the node is a construct of the language, not a comment or a kept word or sign. -/
def isConstruct (n : Node) : Bool :=
  n.kind != .comment && n.kind != .token

/-- The constructs directly below. -/
def constructs (n : Node) : List Node :=
  n.children.filter isConstruct

/-- The first construct directly below. -/
def firstConstruct? (n : Node) : Option Node :=
  n.children.find? isConstruct

/-- The first child that plays the part `r`. -/
def child? (n : Node) (r : Role) : Option Node :=
  n.children.find? (·.role == some r)

/-- The children of the kind `k`. -/
def childrenOf (n : Node) (k : Kind) : List Node :=
  n.children.filter (·.kind == k)

mutual

/-- The number of nodes of the tree below and including the node. -/
def size : Node → Nat
  | mk _ _ _ _ cs => sizeAll cs + 1

/-- The number of nodes of several trees. -/
def sizeAll : List Node → Nat
  | [] => 0
  | n :: ns => n.size + sizeAll ns

end

mutual

/-- Computes a value for each node from the node and the values of its children. -/
def fold {α : Type} (step : Node → List (Node × α) → α) : Node → α
  | mk k r a b cs => step (mk k r a b cs) (foldAll step cs)

/-- The nodes of a list, each with its value. -/
def foldAll {α : Type} (step : Node → List (Node × α) → α) : List Node → List (Node × α)
  | [] => []
  | n :: ns => (n, n.fold step) :: foldAll step ns

end

end Node

end ResponseShapes.Syntax
