import ResponseShapes.Syntax.Grammar.Phrase

/-!
# Types, parameters and patterns
-/

namespace ResponseShapes.Syntax.Grammar

open Syntax.Parser

variable (phrase : Phrases)

/-! ### Annotations and signatures -/

/-- A type after a colon. -/
def annotatedType : Parser Unit :=
  node .annotatedType do
    sign ":"
    phrase .type

/-- What a signature says about its result beyond a type: an assertion, or a predicate on a parameter. -/
def resultClause (asserted predicate : Kind) (opening : Parser Unit) : Parser Unit :=
  let subject := oneOf [keptWord .this ["this"], anyName .identifier]
  let claim := do
    word "is"
    phrase .type
  oneOf
    [node asserted do
      opening
      word "asserts"
      sameStatement false
      subject
      optional claim,
     node predicate do
      opening
      subject
      sameStatement false
      claim]

/-- The annotation of a result. -/
def annotatedResult : Parser Unit :=
  role .returnType <|
    oneOf [resultClause phrase .annotatedAssertion .annotatedPredicate (sign ":"), annotatedType phrase]

/-- Type parameters, parameters and the annotation of the result. -/
def signature : Parser Unit := do
  optional (phrase .typeParameters)
  phrase .parameters
  optional (annotatedResult phrase)

/-- A value after an equals sign. -/
def initializer : Parser Unit := do
  signUnless "=" ['=', '>']
  role .value (phrase .expression)

/-! ### Patterns and parameters -/

/-- A pattern with the value it takes when nothing is given. -/
def defaultedPattern : Parser Unit := do
  phrase .pattern
  optional (extend .assignmentPattern (some .left) (initializer phrase))

/-- What a declaration or parameter binds. -/
def pattern : Parser Unit :=
  oneOf
    [node .objectPattern <| enclosed "\x7b" "\x7d" <| commaSeparated <| oneOf
      [node .restPattern (do sign "..."; phrase .pattern),
       node .pairPattern do
        role .key (propertyName phrase)
        sign ":"
        defaultedPattern phrase,
       do
        identifier
        optional (extend .assignmentPattern (some .left) (initializer phrase))],
     node .arrayPattern <| enclosed "[" "]" <| commaSeparated <| oneOf
      [node .restPattern (do sign "..."; phrase .pattern), defaultedPattern phrase],
     node .restPattern (do sign "..."; phrase .pattern),
     identifier]

/-- One parameter. -/
def parameter : Parser Unit :=
  node .parameter do
    phrase .decorators
    many do
      keptWord .token ["public", "private", "protected", "override", "readonly"]
      guard ((← ahead).head?.any fun c => isWordStart c || c == '\x7b' || c == '[')
    oneOf [keptWord .this ["this"], phrase .pattern]
    optional (sign "?")
    optional (annotatedType phrase)
    optional (initializer phrase)

/-- Parenthesised parameters. -/
def parameters : Parser Unit :=
  node .formalParameters <| enclosed "(" ")" <| commaSeparated (parameter phrase)

/-! ### Types -/

/-- Types in angle brackets. -/
def typeArguments : Parser Unit :=
  node .typeArguments <| withBreaks false do
    sign "<"
    phrase .type
    many (do sign ","; phrase .type)
    optional (sign ",")
    sign ">"

/-- Declared type parameters. -/
def typeParameters : Parser Unit :=
  node .typeParameters <| withBreaks false do
    sign "<"
    typeParameter
    many (do sign ","; typeParameter)
    optional (sign ",")
    sign ">"
where
  /-- One type parameter with its constraint and default. -/
  typeParameter : Parser Unit :=
    node .typeParameter do
      many do
        keptWord .token ["const", "in", "out"]
        guard ((← ahead).head?.any isWordStart)
      anyName .typeIdentifier
      optional (do word "extends"; phrase .type)
      optional (do signUnless "=" ['=', '>']; phrase .type)

/-- The type of a function, written with an arrow. -/
def functionType : Parser Unit := do
  optional (phrase .typeParameters)
  phrase .parameters
  sign "=>"
  oneOf [resultClause phrase .annotatedAssertion .annotatedPredicate (pure ()), phrase .type]

/-- Names that stand for a type by themselves. -/
def predefinedTypes : List String :=
  ["any", "number", "boolean", "string", "symbol", "object", "void", "unknown", "never"]

/-- The names of a path after its first, with dots between them; an array of the path so far ends it. -/
def pathTail (kind : Kind) : Parser Unit :=
  many <| extend kind none do
    signUnless "." ['.']
    oneOf [anyName .identifier, leaf .privatePropertyIdentifier privateNameLength]

/-- A type that no sign joins. -/
def primaryType : Parser Unit :=
  oneOf
    [node .parenthesizedType <| enclosed "(" ")" (phrase .type),
     phrase .objectType,
     node .tupleType <| enclosed "[" "]" <| commaSeparated <| node .tupleElement do
      optional (sign "...")
      optional do
        anyName .identifier
        optional (sign "?")
        sign ":"
      phrase .type
      optional (sign "?"),
     node .literalType <| oneOf
      [stringLiteral, leaf .number numberLength,
       node .unaryExpression (do oneOf [keptSign "-", keptSign "+"]; leaf .number numberLength),
       keptWord .null ["null"], keptWord .undefined ["undefined"], keptWord .true ["true"],
       keptWord .false ["false"]],
     template .templateLiteralType (phrase .type),
     keptWord .thisType ["this"],
     keptWord .token ["const"],
     node .importType do
      word "import"
      enclosed "(" ")" (phrase .type)
      pathTail .memberExpression
      optional (phrase .typeArguments),
     node .predefinedType (do word "unique"; sameStatement false; word "symbol"),
     leaf .predefinedType (fun cs =>
      if predefinedTypes.contains (wordAt cs) && (skipGap (cs.drop (wordLength cs))).head? != some '.' then
        wordLength cs
      else 0),
     do
      leaf .typeIdentifier (fun cs => if (reserved.contains (wordAt cs)) then 0 else wordLength cs)
      pathTail .nestedTypeIdentifier
      optional do
        sameStatement false
        extend .genericType (some .name) (role .typeArguments (phrase .typeArguments))]

/-- A type without unions, intersections and conditions. -/
def typeOperand : Parser Unit :=
  oneOf
    [node .readonlyType (do word "readonly"; sameStatement false; phrase .type),
     node .indexTypeQuery (do word "keyof"; sameStatement false; phrase .typeOperand),
     node .inferType do
      word "infer"
      sameStatement false
      anyName .typeIdentifier
      optional (do sameStatement false; word "extends"; phrase .type),
     node .constructorType do
      optional (do word "abstract"; wordAhead ["new"])
      word "new"
      functionType phrase,
     node .functionType (functionType phrase),
     do
      oneOf
        [node .typeQuery do
          word "typeof"
          oneOf
            [node .importType (do word "import"; enclosed "(" ")" (phrase .type)),
             keptWord .this ["this"], identifier]
          pathTail .memberExpression
          optional (phrase .typeArguments),
         primaryType phrase]
      many do
        sameStatement false
        oneOf
          [extend .arrayType none (do sign "["; sign "]"),
           extend .lookupType none (enclosed "[" "]" (phrase .type))]]

/-- Types with a sign between them, which may also stand in front of the first. -/
def joinedTypes (kind : Kind) (joint : String) (part : Parser Unit) : Parser Unit := do
  let joining := signUnless joint ['|', '&']
  let further := do
    joining
    part
  let leading ← tried joining
  part
  oneOf
    [extend kind none do
      further
      many further,
     if leading then extend kind none (pure ()) else pure ()]

/-- One type. -/
def type : Parser Unit := do
  joinedTypes .unionType "|" (joinedTypes .intersectionType "&" (phrase .typeOperand))
  optional <| extend .conditionalType (some .left) do
    sameStatement false
    word "extends"
    phrase .type
    sign "?"
    phrase .type
    sign ":"
    phrase .type

/-! ### Members of object types -/

/-- The key of an index signature, in brackets: a parameter, or a name that ranges over a type. -/
def indexKey : Parser Unit :=
  enclosed "[" "]" do
    anyName .identifier
    oneOf [sign ":", word "in"]
    phrase .type
    optional (do word "as"; phrase .type)

/-- An index signature, which may add or take away modifiers. -/
def indexSignature : Parser Unit :=
  node .indexSignature do
    optional do
      optional (oneOf [sign "-", sign "+"])
      word "readonly"
    indexKey phrase
    optional (oneOf [sign "-", sign "+"])
    optional (sign "?")
    optional (role .type (annotatedType phrase))

/-- A member of an object type or interface. -/
def typeMember : Parser Unit :=
  oneOf
    [indexSignature phrase,
     node .callSignature (signature phrase),
     node .constructSignature (do word "new"; signature phrase),
     discard <| nodeOf do
      modifiers
      role .name (propertyName phrase)
      optional (sign "?")
      (do signature phrase; return .methodSignature) <|> do
        optional (role .type (annotatedType phrase))
        return .propertySignature]

/-- Members in braces. -/
def objectType : Parser Unit :=
  node .objectType <| withBreaks true do
    sign "\x7b"
    optional (oneOf [sign ",", sign ";"])
    many do
      typeMember phrase
      oneOf [memberEnd false, signAhead "\x7d"]
    sign "\x7d"

end ResponseShapes.Syntax.Grammar
