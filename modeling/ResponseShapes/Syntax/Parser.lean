import ResponseShapes.Syntax.Lexeme
import ResponseShapes.Syntax.Node

/-!
# Reading nodes

A parser moves a cursor over a text and adds the nodes it reads to those of the construct that is open. A comment
becomes a child of the construct that is open where it stands, so a construct neither begins nor ends with one;
the one exception is a statement that ends without a semicolon, which takes the comments on the rest of its line.
-/

namespace ResponseShapes.Syntax

/-- A place in a text and what was read of the construct that is open there. -/
structure Cursor where
  /-- The number of characters before the place. -/
  position : Nat
  /-- The text from the place on. -/
  rest : List Char
  /-- Whether a statement or member is open that may end at a line break. -/
  breakable : Bool
  /-- The children read so far, the latest first. -/
  children : List Node

/-- Reads something at the cursor, or fails and leaves the cursor to the next alternative. -/
abbrev Parser (α : Type) := StateT Cursor Option α

namespace Parser

/-! ### Gaps -/

/-- The comments of a gap as nodes, the latest first. -/
def commentNodes (g : Gap) : List Node :=
  (g.comments.map fun c => Node.mk .comment none c.1 c.2 []).reverse

/-- Skips blanks and comments. -/
def gap : Parser Unit :=
  modify fun c =>
    let g := scanGap isSpace c.position .between c.rest
    { c with position := g.position, rest := g.rest, children := commentNodes g ++ c.children }

/-- Skips the comments on the rest of the line, and the blanks before them. -/
def inlineComments : Parser Unit :=
  modify fun c =>
    let g := scanGap isInlineSpace c.position .between c.rest
    match g.comments.getLast? with
    | none => c
    | some (_, stop) =>
      { c with position := stop, rest := c.rest.drop (stop - c.position), children := commentNodes g ++ c.children }

/-- The text after the gap at the cursor. -/
def ahead : Parser (List Char) := do
  return skipGap (← get).rest

/-- Moves over `n` characters. -/
def advance (n : Nat) : Parser Unit :=
  modify fun c => { c with position := c.position + n, rest := c.rest.drop n }

/-! ### Alternatives and repetition -/

/-- Reads `p` if it stands here. -/
def optional (p : Parser Unit) : Parser Unit :=
  p <|> pure ()

/-- Tells whether `p` was read. -/
def tried (p : Parser Unit) : Parser Bool :=
  (do p; return true) <|> return false

/-- Reads `p` as often as it stands here, at most `n` times. -/
def atMost : Nat → Parser Unit → Parser Unit
  | 0, _ => pure ()
  | n + 1, p => (do p; atMost n p) <|> pure ()

/-- Reads `p` as often as it stands here. Each reading moves the cursor, so the characters left bound their number. -/
def many (p : Parser Unit) : Parser Unit := do
  atMost (← get).rest.length p

/-- Reads the first of the alternatives that stands here. -/
def oneOf (alternatives : List (Parser Unit)) : Parser Unit :=
  alternatives.foldr (· <|> ·) failure

/-- Reads `p` with line breaks taken as ends or as blanks, and goes back to how they were taken before. -/
def withBreaks (breakable : Bool) (p : Parser Unit) : Parser Unit := do
  let outer := (← get).breakable
  modify ({ · with breakable })
  p
  modify ({ · with breakable := outer })

/-- Whether the open statement or member ends here for want of a semicolon. -/
def atBreak (afterExpression : Bool) : Parser Bool := do
  let c ← get
  return c.breakable && endsStatement afterExpression (scanGap isInlineSpace 0 .between c.rest).rest

/-- Fails where the open statement or member ends. -/
def sameStatement (afterExpression : Bool) : Parser Unit := do
  guard !(← atBreak afterExpression)

/-! ### Lexemes -/

/-- Adds a node. -/
def push (n : Node) : Parser Unit :=
  modify fun c => { c with children := n :: c.children }

/-- Reads a lexeme of the given length as a node without children. -/
def leaf (kind : Kind) (length : List Char → Nat) : Parser Unit := do
  gap
  let c ← get
  let n := length c.rest
  guard (0 < n)
  advance n
  push (.mk kind none c.position (c.position + n) [])

/-- Reads a sign unless `excluded` follows it. -/
def signUnless (sign : String) (excluded : List Char) : Parser Unit := do
  gap
  let rest := (← get).rest
  guard (startsWith sign rest)
  guard !((rest.drop sign.length).head?.any excluded.contains)
  advance sign.length

/-- Reads a sign. -/
def sign (sign : String) : Parser Unit :=
  signUnless sign []

/-- Reads the word `w`. -/
def word (w : String) : Parser Unit := do
  gap
  guard (wordAt (← get).rest = w)
  advance w.length

/-- Reads one of the words as a node. -/
def keptWord (kind : Kind) (words : List String) : Parser Unit :=
  leaf kind fun cs => if words.contains (wordAt cs) then wordLength cs else 0

/-- Reads a sign as a node. -/
def keptSign (sign : String) : Parser Unit :=
  leaf .token fun cs => if startsWith sign cs then sign.length else 0

/-- Succeeds if the word ahead is one of the words. -/
def wordAhead (words : List String) : Parser Unit := do
  guard (words.contains (wordAt (← ahead)))

/-- Succeeds if the text ahead begins with the sign. -/
def signAhead (sign : String) : Parser Unit := do
  guard (startsWith sign (← ahead))

/-- Reads the end of a statement: its semicolon, or the place where it ends without one. -/
def semicolon : Parser Unit :=
  (do
    inlineComments
    guard (endsStatement true (← get).rest)) <|>
  sign ";"

/-- Reads the end of a member: a semicolon, a comma, or the place where it ends without one. -/
def memberEnd (afterExpression : Bool) : Parser Unit :=
  (do
    inlineComments
    guard (endsStatement afterExpression (← get).rest)) <|>
  sign ";" <|> sign ","

/-! ### Constructs -/

/-- Reads a construct whose kind shows only while reading it. -/
def nodeOf (p : Parser Kind) : Parser Kind := do
  gap
  let outer ← get
  set { outer with children := [] }
  let kind ← p
  modify fun c =>
    { c with children := .mk kind none outer.position c.position c.children.reverse :: outer.children }
  return kind

/-- Reads a construct of the given kind. -/
def node (kind : Kind) (p : Parser Unit) : Parser Unit :=
  discard (nodeOf (do p; return kind))

/-- Gives the constructs that `p` reads the part `r`. -/
def role (r : Role) (p : Parser Unit) : Parser Unit := do
  let outer ← get
  set { outer with children := [] }
  p
  modify fun c =>
    { c with children := (c.children.map fun n => if n.kind = .comment then n else n.withRole r) ++ outer.children }

/-- Makes the construct just read the first child of a larger one, which `p` reads on. -/
def extend (kind : Kind) (r : Option Role) (p : Parser Unit) : Parser Unit := do
  let outer ← get
  match outer.children with
  | [] => failure
  | operand :: others =>
    let first := match r with
      | some r => operand.withRole r
      | none => operand
    set { outer with children := [first] }
    p
    modify fun c =>
      { c with children := .mk kind none operand.start c.position c.children.reverse :: others }

/-- Reads items with commas between them; an item may be missing. -/
def commaSeparated (item : Parser Unit) : Parser Unit := do
  optional item
  many (do sign ","; optional item)

/-- Reads `p` between two signs, in which no line break ends anything. -/
def enclosed (opening closing : String) (p : Parser Unit) : Parser Unit :=
  withBreaks false do
    sign opening
    p
    sign closing

end Parser

end ResponseShapes.Syntax
