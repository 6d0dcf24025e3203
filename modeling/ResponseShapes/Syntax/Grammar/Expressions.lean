import ResponseShapes.Syntax.Grammar.Types

/-!
# Expressions

An operand is read with everything that follows it tightly, binary operators by their levels. A type asserted with
`as` or `satisfies` takes the whole binary expression in front of it.
-/

namespace ResponseShapes.Syntax.Grammar

open Syntax.Parser

variable (phrase : Phrases)

/-! ### Literals -/

/-- An object literal. Names with defaults stand here too, since an object may turn out to be assigned to. -/
def objectLiteral : Parser Unit :=
  node .object <| enclosed "\x7b" "\x7d" <| commaSeparated <| oneOf
    [node .spreadElement (do sign "..."; phrase .expression),
     discard <| nodeOf do
      modifiers
      role .name (propertyName phrase)
      signature phrase
      role .body (phrase .block)
      return .methodDefinition,
     node .pair do
      role .key (propertyName phrase)
      sign ":"
      role .value (phrase .expression),
     node .defaultedShorthand do
      anyName .shorthandPropertyIdentifier
      initializer phrase,
     anyName .shorthandPropertyIdentifier]

/-- An expression or a spread one, as arrays and arguments hold them. -/
def element : Parser Unit :=
  oneOf [node .spreadElement (do sign "..."; phrase .expression), phrase .expression]

/-- An array literal. -/
def arrayLiteral : Parser Unit :=
  node .array <| enclosed "[" "]" <| commaSeparated (element phrase)

/-- The arguments of a call. -/
def callArguments : Parser Unit :=
  node .arguments <| enclosed "(" ")" <| commaSeparated (element phrase)

/-! ### Functions -/

/-- An arrow function. Braces after the arrow hold its body, not an object. -/
def arrowFunction : Parser Unit :=
  node .arrowFunction do
    oneOf
      [do
        word "async"
        sameStatement true
        head,
       head]
    sign "=>"
    oneOf [role .body (phrase .block), role .body (phrase .expression)]
where
  /-- The parameters: a single name, or a full signature. -/
  head : Parser Unit :=
    oneOf
      [do
        identifier
        signAhead "=>",
       do
        signature phrase
        signAhead "=>"]

/-- A function with a body, named or not; a star makes it a generator. -/
def functionWith (plain generator : Kind) (named : Parser Unit) : Parser Unit :=
  discard <| nodeOf do
    optional do
      word "async"
      wordAhead ["function"]
    word "function"
    let isGenerator ← tried (keptSign "*")
    named
    signature phrase
    role .body (phrase .block)
    return if isGenerator then generator else plain

/-! ### Operands -/

/-- A class used as an expression. -/
def classExpression : Parser Unit :=
  node .classExpression do
    phrase .decorators
    word "class"
    optional do
      guard !(["extends", "implements"].contains (wordAt (← ahead)))
      role .name (anyName .typeIdentifier)
    phrase .classTail

/-- A construction; without parentheses of its own it takes no calls. -/
def construction : Parser Unit :=
  node .newExpression do
    word "new"
    oneOf
      [do
        sign "."
        word "target",
       do
        oneOf [do wordAhead ["new"]; phrase .operand, constructed]
        optional (phrase .typeArguments)
        optional (phrase .callArguments)]
where
  /-- What is constructed: a name, or an expression in parentheses, with its members. -/
  constructed : Parser Unit := do
    oneOf
      [keptWord .this ["this"], keptWord .super ["super"],
       node .parenthesizedExpression (enclosed "(" ")" (phrase .expressions)),
       functionWith phrase .functionExpression .generatorFunction (optional identifier),
       classExpression phrase, identifier]
    many <| oneOf
      [extend .memberExpression none do
        signUnless "." ['.']
        role .property (oneOf [anyName .propertyIdentifier, leaf .privatePropertyIdentifier privateNameLength]),
       extend .subscriptExpression none (enclosed "[" "]" (phrase .expressions))]

/-- An operand that no sign in front or behind changes. -/
def primaryExpression : Parser Unit :=
  oneOf
    [node .parenthesizedExpression <| enclosed "(" ")" do
      phrase .expressions
      optional (annotatedType phrase),
     objectLiteral phrase,
     arrayLiteral phrase,
     stringLiteral,
     template .templateString (phrase .expressions),
     leaf .number numberLength,
     leaf .regex regexLength,
     keptWord .true ["true"], keptWord .false ["false"], keptWord .null ["null"],
     keptWord .undefined ["undefined"], keptWord .this ["this"], keptWord .super ["super"],
     functionWith phrase .functionExpression .generatorFunction (optional identifier),
     classExpression phrase,
     construction phrase,
     node .metaProperty (do word "import"; sign "."; word "meta"),
     node .importExpression (do word "import"; signAhead "("),
     leaf .privatePropertyIdentifier privateNameLength,
     identifier]

/-- What may follow an operand tightly. -/
def suffix : Parser Unit :=
  oneOf
    [extend .memberExpression none do
      oneOf [do sign "?."; guard !((← get).rest.head?.any Char.isDigit), signUnless "." ['.']]
      role .property (oneOf [anyName .propertyIdentifier, leaf .privatePropertyIdentifier privateNameLength]),
     extend .subscriptExpression none do
      optional (sign "?.")
      enclosed "[" "]" (phrase .expressions),
     extend .callExpression (some .function) do
      optional (sign "?.")
      optional (role .typeArguments (phrase .typeArguments))
      role .arguments (phrase .callArguments),
     extend .callExpression (some .function) do
      optional (role .typeArguments (phrase .typeArguments))
      role .arguments (template .templateString (phrase .expressions)),
     extend .instantiationExpression none do
      role .typeArguments (phrase .typeArguments)
      guard ((← ahead).head?.elim true ");,]:\x7d".toList.contains),
     extend .nonNullExpression none do
      sameStatement true
      signUnless "!" ['='],
     extend .updateExpression none do
      sameStatement true
      oneOf [keptSign "++", keptSign "--"]]

/-- An operand of a binary operator. -/
def operand : Parser Unit :=
  oneOf
    [arrowFunction phrase,
     node .unaryExpression do
      oneOf [do guard !(startsWith "!=" (← ahead)); keptSign "!", keptSign "~",
        do guard !(startsWith "--" (← ahead)); keptSign "-", do guard !(startsWith "++" (← ahead)); keptSign "+",
        keptWord .token ["typeof", "void", "delete"]]
      phrase .operand,
     node .updateExpression (do oneOf [keptSign "++", keptSign "--"]; phrase .operand),
     node .awaitExpression (do word "await"; phrase .operand),
     node .yieldExpression do
      word "yield"
      oneOf
        [do
          sign "*"
          phrase .expression,
         optional (do sameStatement false; phrase .expression)],
     node .typeAssertion (do phrase .typeArguments; phrase .operand),
     do
      primaryExpression phrase
      many (suffix phrase)]

/-! ### Expressions -/

/-- A binary operator of at least a level, and the operand to its right. -/
def operation (level : Nat) : Parser Unit :=
  extend .binaryExpression (some .left) do
    match operatorAt? (← ahead) with
    | none => failure
    | some op =>
      guard (level ≤ op.level)
      role .operator (leaf .token fun _ => op.text.length)
      role .right (phrase (.binary (if op.leftToRight then op.level + 1 else op.level)))

/-- A type asserted of all that stands before it. -/
def assertedType : Parser Unit := do
  sameStatement true
  oneOf
    [extend .asExpression none do
      word "as"
      oneOf [keptWord .token ["const"], phrase .type],
     extend .satisfiesExpression none (do word "satisfies"; phrase .type)]

/-- Operands and the binary operators of at least a level. -/
def binary (level : Nat) : Parser Unit := do
  phrase .operand
  many <| oneOf [operation phrase level, do guard (level = 0); assertedType phrase]

/-- One expression. -/
def expression : Parser Unit := do
  phrase (.binary 0)
  optional <| extend .ternaryExpression none do
    sign "?"
    withBreaks false (phrase .expression)
    sign ":"
    phrase .expression
  optional <| extend .assignmentExpression (some .left) do
    match assignmentAt? (← ahead) with
    | none => failure
    | some text =>
      sign text
      role .right (phrase .expression)

/-- Expressions with commas between them. -/
def expressions : Parser Unit := do
  phrase .expression
  let further := do
    sign ","
    phrase .expression
  optional <| extend .sequenceExpression none do
    further
    many further

end ResponseShapes.Syntax.Grammar
