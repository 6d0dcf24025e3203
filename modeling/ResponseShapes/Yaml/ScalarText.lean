import ResponseShapes.Yaml.Cursor

/-!
# Texts of scalars

A scalar is written plainly, between quotes or as a block of lines. Reading it folds its lines: a single line break
inside a text counts as a space, and of several the first one is dropped.
-/

namespace ResponseShapes.Yaml

/-! ### Quoted scalars -/

/-- Moves over empty lines inside a quoted scalar, up to the next character that is no blank, and gives their
    breaks. A document marker in between is an error. -/
def quotedBreaks : Nat → Cursor → Except ReadError (List Char × Cursor)
  | 0, _ => .error .malformed
  | fuel + 1, c =>
    if c.atSeparator then .error .malformed
    else
      let c := c.skip fun ch => ch = ' ' || ch = '\t'
      if isBreak c.peek then do
        let (breaks, after) ← quotedBreaks fuel c.lineBreak.2
        return (c.lineBreak.1 ++ breaks, after)
      else return ([], c)

/-- Reads the blanks inside a quoted scalar. A line break with the blanks around it is folded. -/
def quotedBlanks (fuel : Nat) (c : Cursor) : Except ReadError (List Char × Cursor) :=
  let blanks := c.run fun ch => ch = ' ' || ch = '\t'
  let c := c.forward blanks.length
  if isBreak c.peek then do
    let (first, next) := c.lineBreak
    let (breaks, after) ← quotedBreaks fuel next
    let fold := if first ≠ ['\n'] then first else if breaks.isEmpty then [' '] else []
    return (fold ++ breaks, after)
  else return (blanks, c)

/-- The characters that a letter behind a backslash stands for. -/
def escapes : List (Char × Char) :=
  [('0', '\x00'), ('a', '\x07'), ('b', '\x08'), ('t', '\t'), ('\t', '\t'), ('n', '\n'), ('v', '\x0b'), ('f', '\x0c'),
   ('r', '\r'), ('e', '\x1b'), (' ', ' '), ('\x22', '\x22'), ('\\', '\\'), ('/', '/'), ('N', '\u0085'),
   ('_', '\u00a0'), ('L', '\u2028'), ('P', '\u2029')]

/-- The number of digits of an escape that gives a character by its number. -/
def escapeWidth? (c : Char) : Option Nat :=
  if c = 'x' then some 2 else if c = 'u' then some 4 else if c = 'U' then some 8 else none

/-- The value of hexadecimal digits; none unless all characters are such digits. -/
def hexNumber? (cs : List Char) : Option Nat :=
  (cs.mapM Text.hexValue?).map fun ds => ds.foldl (fun n d => 16 * n + d) 0

/-- Reads an escape whose backslash was just passed. -/
def escape (fuel : Nat) (c : Cursor) : Except ReadError (List Char × Cursor) :=
  match escapes.find? (·.1 = c.peek), escapeWidth? c.peek with
  | some (_, ch), _ => if c.rest.isEmpty then .error .malformed else .ok ([ch], c.step)
  | none, some width =>
    let digits := (c.step.rest.take width)
    match hexNumber? digits with
    | some code =>
      if digits.length < width then .error .malformed
      else if code < 0x110000 then .ok ([Char.ofNat code], c.step.forward width)
      else .error (.noCharacter code)
    | none => .error .malformed
  | none, none => if isBreak c.peek then quotedBreaks fuel c.lineBreak.2 else .error .malformed

/-- Reads a quoted scalar whose opening quote was just passed, up to and with the closing one. -/
def quotedFrom (isDouble : Bool) : Nat → Cursor → Except ReadError (List Char × Cursor)
  | 0, _ => .error .malformed
  | fuel + 1, c => do
    let quote := if isDouble then '\x22' else '\x27'
    if c.rest.isEmpty then .error .malformed
    else if c.peek = quote && !(!isDouble && c.peekAt 1 = quote) then return ([], c.step)
    else
      let (part, next) ←
        if c.peek = quote then .ok ([quote], c.forward 2)
        else if isDouble && c.peek = '\\' then escape fuel c.step
        else if c.peek = ' ' || c.peek = '\t' || isBreak c.peek then quotedBlanks fuel c
        else .ok ([c.peek], c.step)
      let (more, after) ← quotedFrom isDouble fuel next
      return (part ++ more, after)

/-- Reads a quoted scalar. -/
def quotedScalar (isDouble : Bool) (c : Cursor) : Except ReadError (List Char × Cursor) :=
  quotedFrom isDouble (c.rest.length + 1) c.step

/-! ### Plain scalars -/

/-- Characters that structure collections between brackets. -/
def isFlowMark (c : Char) : Bool :=
  c = ',' || c = '[' || c = ']' || c = '\x7b' || c = '\x7d'

/-- The characters of a plain scalar up to the next blank. A colon before a blank ends it, and so do the marks of a
    collection between brackets inside one. -/
def plainRun (inFlow : Bool) : List Char → List Char
  | [] => []
  | c :: cs =>
    let next := cs.headD endMark
    if isSeparator c || (c = ':' && (isSeparator next || (inFlow && isFlowMark next))) ||
        (inFlow && (isFlowMark c || c = '?')) then []
    else c :: plainRun inFlow cs

/-- Moves over empty lines inside a plain scalar and gives their breaks; none when a document marker follows. -/
def plainBreaks : Nat → Cursor → Option (List Char) × Cursor
  | 0, c => (some [], c)
  | fuel + 1, c =>
    let c := c.skip (· = ' ')
    if isBreak c.peek then
      let next := c.lineBreak.2
      if next.atSeparator then (none, next)
      else
        let (breaks, after) := plainBreaks fuel next
        (breaks.map (c.lineBreak.1 ++ ·), after)
    else (some [], c)

/-- The blanks behind a part of a plain scalar, folded. -/
structure PlainBlanks where
  /-- What they contribute, if the scalar goes on behind them. -/
  text : List Char
  after : Cursor
  /-- Whether a line ends among them. -/
  broken : Bool

/-- Reads the blanks behind a part of a plain scalar. -/
def plainBlanks (c : Cursor) : PlainBlanks :=
  let blanks := c.run (· = ' ')
  let c := c.forward blanks.length
  if isBreak c.peek then
    let (first, next) := c.lineBreak
    if next.atSeparator then { text := [], after := next, broken := true }
    else
      match plainBreaks (c.rest.length + 1) next with
      | (none, after) => { text := [], after, broken := true }
      | (some breaks, after) =>
        let fold := if first ≠ ['\n'] then first else if breaks.isEmpty then [' '] else []
        { text := fold ++ breaks, after, broken := true }
  else { text := blanks, after := c, broken := false }

/-- Reads a plain scalar from one of its parts on, which `blanks` precede. Outside of brackets its lines stand at the
    margin or to the right of it. -/
def plainFrom (inFlow : Bool) (margin : Nat) : Nat → PlainBlanks → List Char × PlainBlanks
  | 0, blanks => ([], blanks)
  | fuel + 1, blanks =>
    let c := blanks.after
    let part := if c.peek = '#' then [] else plainRun inFlow c.rest
    if part.isEmpty then ([], blanks)
    else
      let next := plainBlanks (c.forward part.length)
      if next.text.isEmpty || next.after.peek = '#' || (!inFlow && next.after.column < margin) then
        (blanks.text ++ part, next)
      else
        let (more, last) := plainFrom inFlow margin fuel next
        (blanks.text ++ part ++ more, last)

/-- Reads a plain scalar; the blanks behind it are passed too. -/
def plainScalar (inFlow : Bool) (margin : Nat) (c : Cursor) : List Char × PlainBlanks :=
  plainFrom inFlow margin (c.rest.length + 1) { text := [], after := c, broken := false }

/-! ### Block scalars -/

/-- The header of a block scalar. -/
structure BlockHeader where
  /-- What becomes of the line breaks at the end: all are kept, none, or one if nothing is said. -/
  keepEnd : Option Bool
  /-- The indentation of the lines, if it is given. -/
  indentation : Option Nat

/-- Reads the mark for the line breaks at the end, if there is one. -/
def keepMark (c : Cursor) : Option Bool × Cursor :=
  if c.peek = '+' then (some true, c.step) else if c.peek = '-' then (some false, c.step) else (none, c)

/-- Reads the digit for the indentation, if there is one. -/
def indentationMark (c : Cursor) : Except ReadError (Option Nat × Cursor) :=
  if c.peek = '0' then .error .malformed
  else if c.peek.isDigit then .ok (some (c.peek.toNat - 0x30), c.step)
  else .ok (none, c)

/-- Reads the header of a block scalar, whose marks stand in any order, to the end of its line. -/
def blockHeader (c : Cursor) : Except ReadError (BlockHeader × Cursor) := do
  let (keep, c) := keepMark c
  let (indentation, c) ← indentationMark c
  let (keep, c) := if keep.isNone && indentation.isSome then keepMark c else (keep, c)
  if isSpaceOrEnd c.peek then return ({ keepEnd := keep, indentation }, ← c.finishLine)
  else .error .malformed

/-- Moves over empty lines and the indentation of the line behind them, and gives their breaks. -/
def blockBreaks (indent : Nat) : Nat → Cursor → List Char × Cursor
  | 0, c => ([], c)
  | fuel + 1, c =>
    let c := c.skipSpacesTo indent
    if isBreak c.peek then
      let (breaks, after) := blockBreaks indent fuel c.lineBreak.2
      (c.lineBreak.1 ++ breaks, after)
    else ([], c)

/-- Moves over empty lines and the spaces behind them, and gives their breaks and the largest column among them. -/
def blockIndentation : Nat → Nat → Cursor → List Char × Nat × Cursor
  | 0, widest, c => ([], widest, c)
  | fuel + 1, widest, c =>
    let c := c.skip (· = ' ')
    let widest := max widest c.column
    if isBreak c.peek then
      let (breaks, widest, after) := blockIndentation fuel widest c.lineBreak.2
      (c.lineBreak.1 ++ breaks, widest, after)
    else ([], widest, c)

/-- The lines of a block scalar: their text, the break of the last one, and the breaks of the empty lines behind. -/
structure BlockLines where
  text : List Char
  lastBreak : List Char
  breaks : List Char
  after : Cursor

/-- Whether a character is a space or a tab; lines that begin with one are not folded. -/
def isIndented (c : Char) : Bool :=
  c = ' ' || c = '\t'

/-- Reads the lines of a block scalar that are indented by `indent`, of which empty lines with the given breaks
    precede the first. -/
def blockLines (folded : Bool) (indent : Nat) : Nat → List Char → Cursor → BlockLines
  | 0, breaks, c => { text := [], lastBreak := [], breaks, after := c }
  | fuel + 1, breaks, c =>
    if c.column = indent && !c.rest.isEmpty then
      let line := c.run (!isBreak ·)
      let (last, next) := (c.forward line.length).lineBreak
      let (nextBreaks, next) := blockBreaks indent (next.rest.length + 1) next
      if next.column = indent && !next.rest.isEmpty then
        let fold :=
          if folded && last = ['\n'] && !isIndented c.peek && !isIndented next.peek then
            if nextBreaks.isEmpty then [' '] else []
          else last
        let more := blockLines folded indent fuel nextBreaks next
        { more with text := breaks ++ line ++ fold ++ more.text }
      else { text := breaks ++ line, lastBreak := last, breaks := nextBreaks, after := next }
    else { text := [], lastBreak := [], breaks, after := c }

/-- Reads a block scalar inside a block at `margin`. -/
def blockScalar (folded : Bool) (margin : Nat) (c : Cursor) : Except ReadError (List Char × Cursor) := do
  let (header, c) ← blockHeader c.step
  let least := max margin 1
  let fuel := c.rest.length + 1
  let (breaks, indent, c) :=
    match header.indentation with
    | some n =>
      let (breaks, c) := blockBreaks (least + n - 1) fuel c
      (breaks, least + n - 1, c)
    | none =>
      let (breaks, widest, c) := blockIndentation fuel 0 c
      (breaks, max least widest, c)
  let lines := blockLines folded indent fuel breaks c
  let ending := if header.keepEnd = some false then [] else lines.lastBreak
  let tail := if header.keepEnd = some true then lines.breaks else []
  return (lines.text ++ ending ++ tail, lines.after)

end ResponseShapes.Yaml
