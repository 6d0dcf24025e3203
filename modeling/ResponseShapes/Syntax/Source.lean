import ResponseShapes.Syntax.Node
import ResponseShapes.Text.Blank

/-!
# Sources

A source is a text with its tree. The text of a node is the stretch of characters that the node covers.
-/

namespace ResponseShapes.Syntax

/-- A text and the tree read from it. -/
structure Source where
  text : List Char
  root : Node

namespace Source

/-- The characters from one position up to another. -/
def slice (s : Source) (start stop : Nat) : List Char :=
  (s.text.drop start).take (stop - start)

/-- The characters a node covers. -/
def charsOf (s : Source) (n : Node) : List Char :=
  s.slice n.start n.stop

/-- The text a node covers. -/
def textOf (s : Source) (n : Node) : String :=
  String.ofList (s.charsOf n)

/-- The text of the construct in the part `r`; empty when the part is missing. -/
def partText (s : Source) (n : Node) (r : Role) : String :=
  match n.child? r with
  | some c => s.textOf c
  | none => ""

/-- The blanks at the start of the line that holds the position. -/
def lineIndent (s : Source) (position : Nat) : List Char :=
  let before := s.text.take position
  let column := (before.reverse.takeWhile (· != '\n')).length
  (s.text.drop (before.length - column)).takeWhile fun c => c == ' ' || c == '\t'

end Source

/-- Replaces each backslash in front of `c`, together with `c`, by `c`, from left to right. -/
def unescape (c : Char) : List Char → List Char
  | '\\' :: d :: cs => if d = c then c :: unescape c cs else '\\' :: unescape c (d :: cs)
  | d :: cs => d :: unescape c cs
  | [] => []

/-- The characters without a quote at both ends. -/
def stripQuotes (cs : List Char) : List Char :=
  match cs with
  | q :: d :: ds =>
    if (q == '\x27' || q == '\x22' || q == '\x60') && (d :: ds).getLast? == some q then (d :: ds).dropLast else cs
  | _ => cs

/-- The string that a literal denotes: what stands between its quotes, with escaped quotes and then escaped
    backslashes taken back. Other escapes stay as they are. -/
def unquote (literal : List Char) : List Char :=
  unescape '\\' (unescape '\x22' (unescape '\x27' (stripQuotes literal)))

/-- The string that a literal node denotes. -/
def Source.stringValue (s : Source) (n : Node) : String :=
  String.ofList (unquote (s.charsOf n))

end ResponseShapes.Syntax
