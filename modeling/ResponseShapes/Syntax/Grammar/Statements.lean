import ResponseShapes.Syntax.Grammar.Expressions

/-!
# Statements, declarations and classes
-/

namespace ResponseShapes.Syntax.Grammar

open Syntax.Parser

variable (phrase : Phrases)

/-! ### Decorators -/

/-- A decorator: a name, a member of one, a call of either, or one of these in parentheses. -/
def decorator : Parser Unit :=
  node .decorator do
    sign "@"
    oneOf [node .parenthesizedExpression (enclosed "(" ")" decorating), decorating]
where
  /-- The expression of a decorator. -/
  decorating : Parser Unit := do
    anyName .identifier
    many <| extend .memberExpression none do
      signUnless "." ['.']
      role .property (anyName .propertyIdentifier)
    optional <| extend .callExpression (some .function) do
      optional (role .typeArguments (phrase .typeArguments))
      role .arguments (phrase .callArguments)

/-- The decorators in front of a declaration. -/
def decorators : Parser Unit :=
  many (decorator phrase)

/-! ### Classes -/

/-- A member of a class with its name. The words in front of the name, and whether parameters and a body follow it,
    decide what it is. -/
def classMember : Parser Unit := do
  let kind ← nodeOf do
    modifiers
    role .name (propertyName phrase)
    optional (oneOf [sign "?", signUnless "!" ['=']])
    (do
      signature phrase
      (do
        role .body (phrase .block)
        return .methodDefinition) <|> return .methodSignature) <|>
     (do
      optional (role .type (annotatedType phrase))
      optional (initializer phrase)
      return .fieldDefinition)
  match kind with
  | .methodDefinition => pure ()
  | .fieldDefinition => oneOf [memberEnd true, signAhead "\x7d"]
  | _ => oneOf [memberEnd false, signAhead "\x7d"]

/-- The members of a class, in braces. Decorators stand beside the member they belong to. -/
def classBody : Parser Unit :=
  node .classBody <| withBreaks true do
    sign "\x7b"
    many <| oneOf
      [sign ";", decorator phrase,
       node .staticBlock do
        word "static"
        role .body (phrase .block),
       do
        indexSignature phrase
        oneOf [memberEnd false, signAhead "\x7d"],
       classMember phrase]
    sign "\x7d"

/-- The part of a class from its type parameters on. -/
def classTail : Parser Unit := do
  optional (phrase .typeParameters)
  optional <| node .classHeritage do
    word "extends"
    withBreaks false (phrase .operand)
    optional (phrase .typeArguments)
  optional <| node .classHeritage do
    word "implements"
    phrase .type
    many (do sign ","; phrase .type)
  role .body (classBody phrase)

/-- A named class with its decorators. -/
def classDeclaration : Parser Unit :=
  discard <| nodeOf do
    decorators phrase
    let isAbstract ← tried (word "abstract")
    word "class"
    guard !(["extends", "implements"].contains (wordAt (← ahead)))
    role .name (anyName .typeIdentifier)
    phrase .classTail
    return if isAbstract then .abstractClassDeclaration else .classDeclaration

/-! ### Declarations -/

/-- Bound names with their types and values. -/
def declarators : Parser Unit := do
  declarator
  many (do sign ","; declarator)
where
  /-- One bound name. -/
  declarator : Parser Unit :=
    node .variableDeclarator do
      role .name (phrase .pattern)
      optional (signUnless "!" ['='])
      optional (role .type (annotatedType phrase))
      optional (initializer phrase)

/-- A declaration of variables or constants. -/
def variableDeclaration : Parser Unit :=
  discard <| nodeOf do
    let kind ← (do word "var"; return Kind.variableDeclaration) <|> (do
      oneOf
        [do
          word "const"
          guard (wordAt (← ahead) != "enum"),
         word "let"]
      return Kind.lexicalDeclaration)
    declarators phrase
    semicolon
    return kind

/-- A named function, or its signature alone. -/
def functionDeclaration : Parser Unit :=
  oneOf
    [functionWith phrase .functionDeclaration .generatorFunctionDeclaration (role .name (anyName .identifier)),
     node .functionSignature do
      optional (word "async")
      word "function"
      optional (sign "*")
      role .name (anyName .identifier)
      signature phrase
      guard ((← ahead).head? != some '\x7b')
      semicolon]

/-- An enumeration. -/
def enumDeclaration : Parser Unit :=
  node .enumDeclaration do
    optional (word "const")
    word "enum"
    role .name (anyName .identifier)
    node .enumBody <| enclosed "\x7b" "\x7d" <| commaSeparated do
      propertyName phrase
      optional (initializer phrase)

/-- An interface. -/
def interfaceDeclaration : Parser Unit :=
  node .interfaceDeclaration do
    word "interface"
    sameStatement false
    role .name (anyName .typeIdentifier)
    optional (phrase .typeParameters)
    optional do
      word "extends"
      phrase .type
      many (do sign ","; phrase .type)
    role .body (phrase .objectType)

/-- A name for a type. -/
def typeAlias : Parser Unit :=
  node .typeAliasDeclaration do
    word "type"
    sameStatement false
    role .name (anyName .typeIdentifier)
    optional (phrase .typeParameters)
    sign "="
    phrase .type
    semicolon

/-- A namespace or a module. -/
def namespaceDeclaration : Parser Unit :=
  node .namespaceDeclaration do
    oneOf
      [do
        oneOf [word "namespace", word "module"]
        sameStatement false
        oneOf
          [stringLiteral,
           do
            anyName .identifier
            pathTail .memberExpression]
        optional (role .body (phrase .block)),
       do
        word "global"
        role .body (phrase .block)]

/-- A name for a part of a namespace. -/
def importAlias : Parser Unit :=
  node .importAlias do
    word "import"
    anyName .identifier
    sign "="
    anyName .identifier
    pathTail .memberExpression
    semicolon

/-- A declaration. -/
def declaration : Parser Unit :=
  oneOf
    [functionDeclaration phrase, classDeclaration phrase, enumDeclaration phrase, variableDeclaration phrase,
     interfaceDeclaration phrase, typeAlias phrase, importAlias,
     node .ambientDeclaration do
      word "declare"
      sameStatement false
      oneOf [functionDeclaration phrase, classDeclaration phrase, enumDeclaration phrase,
        variableDeclaration phrase, interfaceDeclaration phrase, typeAlias phrase,
        do
          namespaceDeclaration phrase
          optional semicolon],
     do
      guard (wordAt (← ahead) != "global")
      namespaceDeclaration phrase]

/-! ### Modules -/

/-- A name in an import or export list, which may be written as a string. -/
def moduleName : Parser Unit :=
  oneOf [anyName .identifier, stringLiteral]

/-- A name in an import or export list with the name it goes by elsewhere. -/
def specifier (kind : Kind) : Parser Unit :=
  node kind do
    optional do
      keptWord .token ["type", "typeof"]
      guard ((← ahead).head?.any fun c => isWordStart c || c == '\x27' || c == '\x22')
      guard (wordAt (← ahead) != "as")
    role .name moduleName
    optional do
      word "as"
      role .rename moduleName

/-- The module a name comes from, after the word for it. -/
def sourceClause : Parser Unit := do
  word "from"
  role .source stringLiteral

/-- Attributes of an imported module. -/
def importAttributes : Parser Unit :=
  optional <| node .importAttribute do
    oneOf [word "with", word "assert"]
    phrase .expression

/-- An import. -/
def importStatement : Parser Unit :=
  node .importStatement do
    word "import"
    oneOf
      [do
        optional do
          keptWord .token ["type", "typeof"]
          guard ((← ahead).head?.any fun c => isWordStart c || c == '\x7b' || c == '*')
          guard (wordAt (← ahead) != "from")
        clause
        sourceClause,
       do
        keptWord .token ["type", "typeof"]
        clause
        sourceClause,
       do
        clause
        sourceClause,
       node .importRequireClause do
        optional (do keptWord .token ["type"]; guard ((← ahead).head?.any isWordStart))
        anyName .identifier
        sign "="
        word "require"
        enclosed "(" ")" (role .source stringLiteral),
       role .source stringLiteral]
    importAttributes phrase
    semicolon
where
  /-- Names in braces, or one name for the whole module. -/
  names : Parser Unit :=
    oneOf
      [node .namedImports <| enclosed "\x7b" "\x7d" <| commaSeparated (specifier .importSpecifier),
       node .namespaceImport do
        sign "*"
        word "as"
        anyName .identifier]
  /-- What an import brings in. -/
  clause : Parser Unit :=
    node .importClause <| oneOf
      [do
        anyName .identifier
        optional do
          sign ","
          names,
       names]

/-- An export, with the decorators of the class it exports. -/
def exportStatement : Parser Unit :=
  node .exportStatement do
    decorators phrase
    word "export"
    oneOf
      [do
        sign "*"
        optional <| node .namespaceExport do
          word "as"
          moduleName
        sourceClause
        importAttributes phrase
        semicolon,
       do
        optional (word "type")
        node .exportClause <| enclosed "\x7b" "\x7d" <| commaSeparated (specifier .exportSpecifier)
        optional do
          sourceClause
          importAttributes phrase
        semicolon,
       do
        word "type"
        sign "*"
        sourceClause
        semicolon,
       do
        word "default"
        oneOf
          [role .declaration (declaration phrase),
           do
            role .value (phrase .expression)
            semicolon],
       do
        signUnless "=" ['=']
        phrase .expression
        semicolon,
       do
        word "as"
        word "namespace"
        anyName .identifier
        semicolon,
       role .declaration (declaration phrase)]

/-! ### Statements -/

/-- Statements in braces. -/
def block : Parser Unit :=
  node .statementBlock do
    sign "\x7b"
    many (phrase .statement)
    sign "\x7d"

/-- An expression in parentheses, as the heads of statements hold it. -/
def condition : Parser Unit :=
  node .parenthesizedExpression (enclosed "(" ")" (phrase .expressions))

/-- The head and body of a loop over values or counting steps. -/
def forStatement : Parser Unit :=
  oneOf
    [node .forInStatement do
      word "for"
      optional (word "await")
      enclosed "(" ")" do
        oneOf
          [do
            oneOf [word "const", word "let", word "var"]
            phrase .pattern
            keptWord .token ["of", "in"],
           do
            phrase .operand
            keptWord .token ["of", "in"]]
        phrase .expressions
      phrase .statement,
     node .forStatement do
      word "for"
      enclosed "(" ")" do
        oneOf
          [do
            oneOf [word "const", word "let", word "var"]
            declarators phrase
            sign ";",
           do
            optional (phrase .expressions)
            sign ";"]
        optional (phrase .expressions)
        sign ";"
        optional (phrase .expressions)
      phrase .statement]

/-- The cases of a switch, in braces. -/
def switchBody : Parser Unit :=
  node .switchBody do
    sign "\x7b"
    many <| node .switchCase do
      oneOf
        [do
          word "case"
          withBreaks false (phrase .expressions),
         word "default"]
      sign ":"
      many (phrase .statement)
    sign "\x7d"

/-- A statement that begins with a word of its own. -/
def keywordStatement : Parser Unit :=
  let jump (kind : Kind) (w : String) :=
    node kind do
      word w
      optional do
        sameStatement false
        anyName .labelIdentifier
      semicolon
  oneOf
    [node .ifStatement do
      word "if"
      condition phrase
      phrase .statement
      optional (do word "else"; phrase .statement),
     forStatement phrase,
     node .whileStatement (do word "while"; condition phrase; phrase .statement),
     node .doStatement do
      word "do"
      phrase .statement
      word "while"
      condition phrase
      optional semicolon,
     node .switchStatement (do word "switch"; condition phrase; switchBody phrase),
     node .tryStatement do
      word "try"
      phrase .block
      optional <| node .catchClause do
        word "catch"
        optional <| enclosed "(" ")" do
          phrase .pattern
          optional (annotatedType phrase)
        phrase .block
      optional <| node .finallyClause (do word "finally"; phrase .block),
     node .returnStatement do
      word "return"
      optional do
        sameStatement false
        phrase .expressions
      semicolon,
     node .throwStatement (do word "throw"; phrase .expressions; semicolon),
     node .withStatement (do word "with"; condition phrase; phrase .statement),
     jump .breakStatement "break",
     jump .continueStatement "continue",
     node .debuggerStatement (do word "debugger"; semicolon)]

/-- One statement. -/
def statement : Parser Unit :=
  withBreaks true <| oneOf
    [node .emptyStatement (sign ";"),
     phrase .block,
     keywordStatement phrase,
     importStatement phrase,
     exportStatement phrase,
     declaration phrase,
     node .labeledStatement do
      anyName .labelIdentifier
      sign ":"
      phrase .statement,
     node .expressionStatement (do phrase .expressions; semicolon)]

end ResponseShapes.Syntax.Grammar
