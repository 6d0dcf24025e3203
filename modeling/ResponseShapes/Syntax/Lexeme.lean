/-!
# Lexemes

The lengths of the lexemes of TypeScript at the front of a text, the gaps of blanks and comments between them, and
the rule by which a statement may end without a written semicolon. A length of zero means that no such lexeme
stands there.
-/

namespace ResponseShapes.Syntax

/-! ### Gaps -/

/-- Characters that separate lexemes: white space, and the marks of zero width. -/
def isSpace (c : Char) : Bool :=
  let n := c.toNat
  (0x09 ≤ n && n ≤ 0x0D) || n == 0x20 || n == 0x85 || n == 0xA0 || n == 0x1680 || (0x2000 ≤ n && n ≤ 0x200B) ||
    n == 0x2028 || n == 0x2029 || n == 0x202F || n == 0x205F || n == 0x2060 || n == 0x3000 || n == 0xFEFF

/-- Characters that break a line in source text. -/
def isLineBreak (c : Char) : Bool :=
  c == '\n' || c == '\u2028' || c == '\u2029'

/-- Separating characters that keep the line. -/
def isInlineSpace (c : Char) : Bool :=
  isSpace c && !isLineBreak c

/-- Where a scan of a gap stands: between comments, or in one that began at a position. A block comment also keeps
    the text it began with, since without an end it is no comment. -/
inductive GapState
  | between
  | line (start : Nat)
  | block (start : Nat) (opening : List Char)

/-- A scanned gap: the comments in it, the position after it, and the text from there. -/
structure Gap where
  comments : List (Nat × Nat)
  position : Nat
  rest : List Char

/-- Adds a comment in front. -/
def Gap.withComment (start stop : Nat) (g : Gap) : Gap :=
  { g with comments := (start, stop) :: g.comments }

/-- Scans blanks and comments. -/
def scanGap (blank : Char → Bool) (position : Nat) : GapState → List Char → Gap
  | .between, '/' :: '/' :: cs => scanGap blank (position + 2) (.line position) cs
  | .between, '/' :: '*' :: cs => scanGap blank (position + 2) (.block position ('/' :: '*' :: cs)) cs
  | .between, c :: cs => if blank c then scanGap blank (position + 1) .between cs else ⟨[], position, c :: cs⟩
  | .between, [] => ⟨[], position, []⟩
  | .line start, c :: cs =>
    if isLineBreak c || c == '\r' then
      if blank c then (scanGap blank (position + 1) .between cs).withComment start position
      else ⟨[(start, position)], position, c :: cs⟩
    else scanGap blank (position + 1) (.line start) cs
  | .line start, [] => ⟨[(start, position)], position, []⟩
  | .block start _, '*' :: '/' :: cs =>
    (scanGap blank (position + 2) .between cs).withComment start (position + 2)
  | .block start opening, _ :: cs => scanGap blank (position + 1) (.block start opening) cs
  | .block start opening, [] => ⟨[], start, opening⟩

/-- The text after the gap at its front. -/
def skipGap (cs : List Char) : List Char :=
  (scanGap isSpace 0 .between cs).rest

/-! ### Words -/

/-- Characters that no word contains. -/
def isSign (c : Char) : Bool :=
  ":;\x60\x22\x27@#.,|^&<=>+-*/\\%?!~()[]\x7b\x7d".toList.contains c

/-- Characters of words. -/
def isWordPart (c : Char) : Bool :=
  0x20 ≤ c.toNat && !isSpace c && !isSign c

/-- Characters that may begin a word. -/
def isWordStart (c : Char) : Bool :=
  isWordPart c && !c.isDigit

/-- Whether the character is a hexadecimal digit. -/
def isHexDigit (c : Char) : Bool :=
  c.isDigit || ('a' ≤ c && c ≤ 'f') || ('A' ≤ c && c ≤ 'F')

/-- Whether digits and then a closing brace stand here, as in a braced escape. -/
def closesEscape (cs : List Char) : Bool :=
  cs.head?.any isHexDigit && (cs.dropWhile isHexDigit).head? == some '\x7d'

/-- The length of the rest of a word, in which a character may be escaped by its number; `escaped` tells that a
    braced escape is open. -/
def wordTail (escaped : Bool) : List Char → Nat
  | '\\' :: 'u' :: '\x7b' :: cs => if escaped || !closesEscape cs then 0 else 3 + wordTail true cs
  | '\\' :: 'u' :: h₁ :: h₂ :: h₃ :: h₄ :: cs =>
    if !escaped && [h₁, h₂, h₃, h₄].all isHexDigit then 6 + wordTail false cs else 0
  | c :: cs =>
    if escaped then
      if isHexDigit c then 1 + wordTail true cs else if c == '\x7d' then 1 + wordTail false cs else 0
    else if isWordPart c then 1 + wordTail false cs
    else 0
  | [] => 0

/-- The length of the word at the front. -/
def wordLength : List Char → Nat
  | c :: cs => if isWordStart c || (c == '\\' && cs.head? == some 'u') then wordTail false (c :: cs) else 0
  | [] => 0

/-- The word at the front; empty when there is none. -/
def wordAt (cs : List Char) : String :=
  String.ofList (cs.take (wordLength cs))

/-- The length of the private name at the front. -/
def privateNameLength : List Char → Nat
  | '#' :: cs => if wordLength cs = 0 then 0 else 1 + wordLength cs
  | _ => 0

/-! ### Literals -/

/-- The length of a string's contents and closing quote. -/
def stringTail (quote : Char) : List Char → Option Nat
  | [] => none
  | '\\' :: '\r' :: '\n' :: cs => (stringTail quote cs).map (· + 3)
  | '\\' :: _ :: cs => (stringTail quote cs).map (· + 2)
  | c :: cs =>
    if c = quote then some 1
    else if c == '\n' || c == '\r' then none
    else (stringTail quote cs).map (· + 1)

/-- The length of the string literal at the front. -/
def stringLength : List Char → Nat
  | c :: cs =>
    if c == '\x27' || c == '\x22' then
      match stringTail c cs with
      | some n => n + 1
      | none => 0
    else 0
  | [] => 0

/-- The length of a run of digits, which single underscores may separate. -/
def digitRun (isDigit : Char → Bool) : List Char → Nat
  | '_' :: d :: cs => if isDigit d then 2 + digitRun isDigit cs else 0
  | c :: cs => if isDigit c then 1 + digitRun isDigit cs else 0
  | [] => 0

/-- The length of the exponent at the front. -/
def exponentLength : List Char → Nat
  | e :: cs =>
    if e == 'e' || e == 'E' then
      match cs with
      | '+' :: ds | '-' :: ds =>
        if (ds.head?.map Char.isDigit).getD false then 2 + digitRun Char.isDigit ds else 0
      | ds => if (ds.head?.map Char.isDigit).getD false then 1 + digitRun Char.isDigit ds else 0
    else 0
  | [] => 0

/-- The length of a number with a base letter after its leading zero. -/
def basedLength (isDigit : Char → Bool) (cs : List Char) : Nat :=
  let n := if (cs.head?.map isDigit).getD false then digitRun isDigit cs else 0
  if n = 0 then 0 else 2 + n + (if (cs.drop n).head? = some 'n' then 1 else 0)

/-- The length of the number at the front. -/
def numberLength (cs : List Char) : Nat :=
  match cs with
  | '0' :: 'x' :: ds | '0' :: 'X' :: ds => basedLength isHexDigit ds
  | '0' :: 'b' :: ds | '0' :: 'B' :: ds => basedLength (fun c => c == '0' || c == '1') ds
  | '0' :: 'o' :: ds | '0' :: 'O' :: ds => basedLength (fun c => '0' ≤ c && c ≤ '7') ds
  | '.' :: d :: ds =>
    if d.isDigit then
      let n := 1 + digitRun Char.isDigit (d :: ds)
      n + exponentLength (cs.drop n)
    else 0
  | d :: _ =>
    if d.isDigit then
      let whole := digitRun Char.isDigit cs
      match cs.drop whole with
      | 'n' :: _ => whole + 1
      | '.' :: ds =>
        let n := whole + 1 + (if (ds.head?.map Char.isDigit).getD false then digitRun Char.isDigit ds else 0)
        n + exponentLength (cs.drop n)
      | ds => whole + exponentLength ds
    else 0
  | [] => 0

/-- The length of a regular expression's pattern and closing slash; `inClass` tells that a bracketed class is open. -/
def regexTail (inClass : Bool) : List Char → Option Nat
  | [] => none
  | '\\' :: c :: cs => if c == '\n' || c == '\r' then none else (regexTail inClass cs).map (· + 2)
  | c :: cs =>
    if c == '\n' || c == '\r' then none
    else if c == '/' && !inClass then some 1
    else (regexTail (if c == '[' then true else if c == ']' then false else inClass) cs).map (· + 1)

/-- The length of the regular expression at the front, its flags included. -/
def regexLength : List Char → Nat
  | '/' :: cs =>
    match regexTail false cs with
    | some n => if n = 1 then 0 else 1 + n + ((cs.drop n).takeWhile Char.isLower).length
    | none => 0
  | _ => 0

/-- The length of a template's characters up to its end or its next substitution. -/
def templateRun : List Char → Nat
  | [] => 0
  | '\\' :: _ :: cs => 2 + templateRun cs
  | '$' :: '\x7b' :: _ => 0
  | c :: cs => if c == '\x60' then 0 else 1 + templateRun cs

/-! ### Operators -/

/-- An operator between two operands: the higher its level, the tighter it binds. -/
structure Operator where
  text : String
  level : Nat
  leftToRight : Bool

/-- The binary operators; one that begins with another stands before it. -/
def operators : List Operator :=
  let leftward (sign : String × Nat) : Operator := { text := sign.1, level := sign.2, leftToRight := true }
  [("===", 7), ("!==", 7), (">>>", 9)].map leftward ++ [{ text := "**", level := 12, leftToRight := false }] ++
    [("==", 7), ("!=", 7), ("<=", 8), (">=", 8), ("<<", 9), (">>", 9), ("&&", 3), ("||", 2), ("??", 1), ("|", 4),
      ("^", 5), ("&", 6), ("<", 8), (">", 8), ("+", 10), ("-", 10), ("*", 11), ("/", 11), ("%", 11)].map leftward

/-- The operators that also assign. -/
def assignments : List String :=
  [">>>=", "**=", "<<=", ">>=", "&&=", "||=", "??=", "+=", "-=", "*=", "/=", "%=", "&=", "^=", "|="]

/-- Whether the text begins with `sign`. -/
def startsWith (sign : String) (cs : List Char) : Bool :=
  sign.toList.isPrefixOf cs

/-- The assigning operator at the front. -/
def assignmentAt? (cs : List Char) : Option String :=
  match assignments.find? (startsWith · cs) with
  | some sign => some sign
  | none =>
    match cs with
    | '=' :: '=' :: _ | '=' :: '>' :: _ => none
    | '=' :: _ => some "="
    | _ => none

/-- The binary operator at the front. -/
def operatorAt? (cs : List Char) : Option Operator :=
  match wordAt cs with
  | "in" => some { text := "in", level := 8, leftToRight := true }
  | "instanceof" => some { text := "instanceof", level := 8, leftToRight := true }
  | _ =>
    if (assignmentAt? cs).isSome || startsWith "++" cs || startsWith "--" cs then none
    else operators.find? (startsWith ·.text cs)

/-! ### Statements without a semicolon -/

/-- Whether the text on the next line goes on with the statement before it. A bracket does so only after an
    expression. -/
def continuesStatement (afterExpression : Bool) : List Char → Bool
  | [] => false
  | '+' :: '+' :: _ | '-' :: '-' :: _ => false
  | '!' :: '=' :: _ => true
  | c :: cs =>
    "\x60,.;*%><=?^|&/:+-".toList.contains c || (afterExpression && (c == '(' || c == '[')) ||
      ["in", "instanceof"].contains (wordAt (c :: cs))

/-- Whether a statement may end before the text, which no comment begins: at the end of the text, before a closing
    brace that no type annotation follows, or at a line break after which the statement does not go on. -/
def endsStatement (afterExpression : Bool) : List Char → Bool
  | [] => true
  | c :: cs =>
    if c == '\x7d' then (cs.dropWhile isSpace).head? != some ':'
    else if isLineBreak c then !continuesStatement afterExpression (skipGap cs)
    else isSpace c && endsStatement afterExpression cs

end ResponseShapes.Syntax
