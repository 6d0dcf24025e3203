import ResponseShapes.Syntax.Parser

/-!
# Phrases

The constructs of TypeScript refer to each other without end. A production is therefore written against a reader
of all phrases, and the grammar ties the productions together at the end.
-/

namespace ResponseShapes.Syntax

/-- The phrases that productions refer to. -/
inductive Phrase
  /-- Expressions with commas between them. -/
  | expressions
  /-- One expression. -/
  | expression
  /-- Operands and the binary operators of at least a level. -/
  | binary (level : Nat)
  /-- An operand of a binary operator. -/
  | operand
  /-- What a declaration or parameter binds. -/
  | pattern
  /-- Parenthesised parameters. -/
  | parameters
  /-- Statements in braces. -/
  | block
  /-- One statement. -/
  | statement
  /-- The part of a class from its heritage on. -/
  | classTail
  /-- Decorators in front of a declaration. -/
  | decorators
  /-- Arguments of a call. -/
  | callArguments
  /-- One type. -/
  | type
  /-- A type without unions, intersections and conditions. -/
  | typeOperand
  /-- Types in angle brackets. -/
  | typeArguments
  /-- Declared type parameters in angle brackets. -/
  | typeParameters
  /-- Members in braces. -/
  | objectType

/-- A reader of all phrases. -/
abbrev Phrases := Phrase → Parser Unit

namespace Grammar

open Syntax.Parser

/-- Words that begin or join constructs and therefore name nothing in an expression. -/
def reserved : List String :=
  ["break", "case", "catch", "class", "const", "continue", "debugger", "default", "delete", "do", "else", "enum",
    "export", "extends", "finally", "for", "function", "if", "import", "in", "instanceof", "new", "return", "switch",
    "throw", "try", "typeof", "var", "void", "while", "with"]

/-- A name that an expression or a binding may use. -/
def identifier : Parser Unit :=
  leaf .identifier fun cs => if reserved.contains (wordAt cs) then 0 else wordLength cs

/-- Any word, as a name. -/
def anyName (kind : Kind) : Parser Unit :=
  leaf kind wordLength

/-- A string literal. -/
def stringLiteral : Parser Unit :=
  leaf .string stringLength

/-- The name of a member or property. -/
def propertyName (phrase : Phrases) : Parser Unit :=
  oneOf [anyName .propertyIdentifier, leaf .privatePropertyIdentifier privateNameLength, stringLiteral,
    leaf .number numberLength, node .computedPropertyName (enclosed "[" "]" (phrase .expression))]

/-- A word in front of a member is a modifier only if the member goes on; otherwise it is the member's name. -/
def memberGoesOn : Parser Unit := do
  sameStatement false
  let next := (← ahead).head?
  guard !(next.elim true "(<=;:?!,\x7d".toList.contains)

/-- Words that modify a member, apart from those on its accessibility. -/
def memberModifiers : List String :=
  ["static", "override", "readonly", "abstract", "declare", "accessor", "async", "get", "set"]

/-- The modifiers in front of a member's name. -/
def modifiers : Parser Unit := do
  many <| oneOf
    [do keptWord .accessibilityModifier ["public", "private", "protected"]; memberGoesOn,
     do keptWord .token memberModifiers; memberGoesOn]
  optional (keptSign "*")

/-- A template whose substitutions hold phrases of one kind. -/
def template (kind : Kind) (content : Parser Unit) : Parser Unit :=
  node kind do
    sign "\x60"
    templatePart
    many do
      node .templateSubstitution do
        guard (startsWith "$\x7b" (← get).rest)
        advance 2
        withBreaks false content
        sign "\x7d"
      templatePart
    guard (startsWith "\x60" (← get).rest)
    advance 1
where
  /-- The characters up to the end or the next substitution. -/
  templatePart : Parser Unit := do
    advance (templateRun (← get).rest)

end Grammar

end ResponseShapes.Syntax
