import ResponseShapes.Syntax.Grammar.Statements
import ResponseShapes.Syntax.Source

/-!
# Reading a source text

`parse?` reads a whole TypeScript source, or tells that it is malformed. Every construct that is nested in another
stands behind a character of its own, and between two such characters only a bounded number of phrases refer to each
other, so the length of the text bounds the depth of the reading. A malformed text has the tree that a `Recovery` makes
of it.
-/

namespace ResponseShapes.Syntax

namespace Grammar

/-- The production of each phrase. -/
def production (phrase : Phrases) : Phrases
  | .expressions => expressions phrase
  | .expression => expression phrase
  | .binary level => binary phrase level
  | .operand => operand phrase
  | .pattern => pattern phrase
  | .parameters => parameters phrase
  | .block => block phrase
  | .statement => statement phrase
  | .classTail => classTail phrase
  | .decorators => decorators phrase
  | .callArguments => callArguments phrase
  | .type => type phrase
  | .typeOperand => typeOperand phrase
  | .typeArguments => typeArguments phrase
  | .typeParameters => typeParameters phrase
  | .objectType => objectType phrase

/-- Reads a phrase through at most `depth` productions inside each other. -/
def read : Nat → Phrases
  | 0, _ => failure
  | depth + 1, p => production (read depth) p

/-- The most phrases that refer to each other before one reads a character. -/
def phrasesPerCharacter : Nat := 32

/-- The statements of a whole source. -/
def statements (depth : Nat) : Parser Unit := do
  Parser.many (read depth .statement)
  Parser.gap
  guard (← get).rest.isEmpty

end Grammar

/-- The text without the line at its start that names an interpreter. -/
def dropInterpreterLine : List Char → List Char
  | '#' :: '!' :: cs => cs.dropWhile (!isLineBreak ·)
  | cs => cs

/-- The tree of a source text; none for a malformed one. Positions count the characters of the text. -/
def parse? (text : List Char) : Option Node :=
  let body := dropInterpreterLine text
  let cursor : Cursor :=
    { position := text.length - body.length, rest := body, breakable := true, children := [] }
  match (Grammar.statements (Grammar.phrasesPerCharacter * (body.length + 1))).run cursor with
  | some (_, c) => some (.mk .program none 0 text.length c.children.reverse)
  | none => none

/-- A text with its tree; none for a malformed one. -/
def Source.ofText? (text : String) : Option Source :=
  (parse? text.toList).map fun root => { text := text.toList, root }

end ResponseShapes.Syntax

namespace ResponseShapes

open Syntax

/-- What is made of a malformed text: a tree of the phrases that can still be told in it. -/
class Recovery where
  root : List Char → Node

/-- Unless told otherwise, nothing is read from a malformed text. -/
instance : Recovery where
  root text := .mk .program none 0 text.length []

/-- A text with its tree, which is recovered where the text is malformed. -/
def Syntax.Source.ofText [Recovery] (text : String) : Source :=
  (ofText? text).getD { text := text.toList, root := Recovery.root text.toList }

end ResponseShapes
