import ResponseShapes.Text.Hex

/-!
# Places in a document

A cursor stands at a place of a YAML text and knows its line and its column. Behind the end of the text it sees the
null character, which no text holds.
-/

namespace ResponseShapes.Yaml

/-- Why a text cannot be read. -/
inductive ReadError
  /-- The text is no YAML document. -/
  | malformed
  /-- An escape gives a number that no character has. -/
  | noCharacter (code : Nat)
  deriving DecidableEq, Repr

/-! ### Characters -/

/-- The character that is seen behind the end of a text. -/
def endMark : Char := '\x00'

/-- Characters that break a line. -/
def isBreak (c : Char) : Bool :=
  c = '\n' || c = '\r' || c = '\u0085' || c = '\u2028' || c = '\u2029'

/-- Line breaks and the end. -/
def isBreakOrEnd (c : Char) : Bool :=
  isBreak c || c = endMark

/-- Spaces, line breaks and the end. -/
def isSpaceOrEnd (c : Char) : Bool :=
  c = ' ' || isBreakOrEnd c

/-- Spaces, tabs, line breaks and the end: what separates tokens. -/
def isSeparator (c : Char) : Bool :=
  c = '\t' || isSpaceOrEnd c

/-- Characters of the names of anchors and directives. -/
def isNameChar (c : Char) : Bool :=
  c.isAlphanum || c = '-' || c = '_'

/-- Characters that a text may hold. -/
def isAdmitted (c : Char) : Bool :=
  let n := c.toNat
  n = 0x09 || n = 0x0A || n = 0x0D || (0x20 ≤ n && n ≤ 0x7E) || n = 0x85 || (0xA0 ≤ n && n ≤ 0xFFFD) || 0x10000 ≤ n

/-- The mark of the byte order, which takes no column. -/
def byteOrderMark : Char := '\uFEFF'

/-! ### Cursors -/

/-- A place in a text. -/
structure Cursor where
  rest : List Char
  index : Nat
  line : Nat
  column : Nat
  deriving Repr

namespace Cursor

/-- The start of a text. -/
def start (text : List Char) : Cursor :=
  { rest := text, index := 0, line := 0, column := 0 }

/-- The character `k` places ahead. -/
def peekAt (c : Cursor) (k : Nat) : Char :=
  (c.rest[k]?).getD endMark

/-- The character at the cursor. -/
def peek (c : Cursor) : Char :=
  c.rest.headD endMark

/-- Moves over one character. -/
def step (c : Cursor) : Cursor :=
  match c.rest with
  | [] => c
  | ch :: rest =>
    if isBreak ch && !(ch = '\r' && rest.head? = some '\n') then
      { rest, index := c.index + 1, line := c.line + 1, column := 0 }
    else { c with rest, index := c.index + 1, column := if ch = byteOrderMark then c.column else c.column + 1 }

/-- Moves over `n` characters. -/
def forward : Nat → Cursor → Cursor
  | 0, c => c
  | n + 1, c => forward n c.step

/-- The characters at the cursor that satisfy `p`. -/
def run (c : Cursor) (p : Char → Bool) : List Char :=
  c.rest.takeWhile p

/-- Moves over the characters that satisfy `p`. -/
def skip (c : Cursor) (p : Char → Bool) : Cursor :=
  c.forward (c.run p).length

/-- Moves over spaces, but not beyond a column. -/
def skipSpacesTo (column : Nat) (c : Cursor) : Cursor :=
  c.forward (min (c.run (· = ' ')).length (column - c.column))

/-- Moves over a line break and gives it as it is kept: a line feed for the usual ones. -/
def lineBreak (c : Cursor) : List Char × Cursor :=
  match c.rest with
  | '\r' :: '\n' :: _ => (['\n'], c.forward 2)
  | ch :: _ =>
    if ch = '\r' || ch = '\n' || ch = '\u0085' then (['\n'], c.step)
    else if isBreak ch then ([ch], c.step)
    else ([], c)
  | [] => ([], c)

/-- Whether a document marker made of three times `mark` stands here. -/
def atMarker (mark : Char) (c : Cursor) : Bool :=
  c.peekAt 0 = mark && c.peekAt 1 = mark && c.peekAt 2 = mark && isSeparator (c.peekAt 3)

/-- Whether the marker of the start or of the end of a document stands here. -/
def atSeparator (c : Cursor) : Bool :=
  c.atMarker '-' || c.atMarker '.'

/-- Moves over spaces, a comment and the break of the line; anything else on the line is an error. -/
def finishLine (c : Cursor) : Except ReadError Cursor :=
  let c := c.skip (· = ' ')
  let c := if c.peek = '#' then c.skip (!isBreak ·) else c
  if isBreakOrEnd c.peek then .ok c.lineBreak.2 else .error .malformed

end Cursor

end ResponseShapes.Yaml
