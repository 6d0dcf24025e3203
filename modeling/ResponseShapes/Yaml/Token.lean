import ResponseShapes.Yaml.ScalarText

/-!
# Tokens of a document

The tokens say where collections begin and end, though blocks are written by indentation alone: a block opens where
a key or a dash stands further to the right than the block around it, and it closes before the first token that
stands further to the left. Whether a text is a key shows only at the colon behind it, so the tokens of the key are
put in afterwards.
-/

namespace ResponseShapes.Yaml

/-- A line at the head of a document that begins with a percent sign. -/
inductive Directive
  | version (major : Nat)
  | tag (handle start : String)
  | other
  deriving DecidableEq, Repr

/-- A token. -/
inductive Token
  | directive (d : Directive)
  | documentStart | documentEnd
  | blockSequenceStart | blockMappingStart | blockEnd
  | flowSequenceStart | flowSequenceEnd | flowMappingStart | flowMappingEnd
  | blockEntry | flowEntry | key | value
  | reference (name : String)
  | anchor (name : String)
  /-- A tag, whose handle stands for the start of its name. -/
  | tag (handle : Option String) (suffix : String)
  | scalar (text : String) (isPlain : Bool)
  /-- What follows cannot be read. -/
  | broken (e : ReadError)
  deriving DecidableEq, Repr

/-! ### Tags, names and directives -/

/-- Characters of the name of a tag. -/
def isUriChar (c : Char) : Bool :=
  c.isAlphanum || "-;/?:@&=+$,_.!~*'()[]%".toList.contains c

/-- Reads bytes that are given by percent signs and two digits each. -/
def uriBytes : List Char → Except ReadError (List UInt8 × List Char)
  | '%' :: a :: b :: cs =>
    match Text.hexValue? a, Text.hexValue? b with
    | some m, some n => do
      let (bytes, rest) ← uriBytes cs
      return (UInt8.ofNat (16 * m + n) :: bytes, rest)
    | _, _ => .error .malformed
  | '%' :: _ => .error .malformed
  | cs => .ok ([], cs)

/-- Reads the name of a tag, in at most `fuel` parts. -/
def uriFrom : Nat → List Char → Except ReadError (List Char × List Char)
  | 0, cs => .ok ([], cs)
  | fuel + 1, cs =>
    let plain := cs.takeWhile fun c => isUriChar c && c ≠ '%'
    let rest := cs.drop plain.length
    if rest.head? = some '%' then do
      let (bytes, rest) ← uriBytes rest
      match String.fromUTF8? (ByteArray.mk bytes.toArray) with
      | some s =>
        let (more, rest) ← uriFrom fuel rest
        return (plain ++ s.toList ++ more, rest)
      | none => .error .malformed
    else .ok (plain, rest)

/-- Reads the name of a tag, which is not empty. -/
def uri (c : Cursor) : Except ReadError (String × Cursor) := do
  let (text, rest) ← uriFrom (c.rest.length + 1) c.rest
  let after := c.forward (c.rest.length - rest.length)
  if after.index = c.index then .error .malformed else return (String.ofList text, after)

/-- Reads the handle of a tag: a name between exclamation marks, or one such mark before a space. -/
def tagHandle (c : Cursor) : Except ReadError (String × Cursor) :=
  if c.peek ≠ '!' then .error .malformed
  else if c.peekAt 1 = ' ' then .ok ("!", c.step)
  else
    let name := c.step.run isNameChar
    let after := c.step.forward name.length
    if after.peek = '!' then .ok (String.ofList ('!' :: name ++ ['!']), after.step) else .error .malformed

/-- Reads a tag. -/
def tagToken (c : Cursor) : Except ReadError (Token × Cursor) := do
  let next := c.peekAt 1
  let (handle, suffix, after) ←
    if next = '<' then do
      let (name, after) ← uri (c.forward 2)
      if after.peek = '>' then pure (none, name, after.step) else .error .malformed
    else if isSeparator next then pure (none, "!", c.step)
    else do
      let hasHandle := (c.step.run (!isSpaceOrEnd ·)).contains '!'
      let (handle, after) ← if hasHandle then tagHandle c else pure ("!", c.step)
      let (name, after) ← uri after
      pure (some handle, name, after)
  if isSpaceOrEnd after.peek then return (.tag handle suffix, after) else .error .malformed

/-- Characters that may stand behind the name of an anchor or an alias. -/
def endsName (c : Char) : Bool :=
  isSeparator c || "?:,]\x7d%@\x60".toList.contains c

/-- Reads the name of an anchor or an alias, whose sign was just passed. -/
def anchorName (c : Cursor) : Except ReadError (String × Cursor) :=
  let name := c.run isNameChar
  let after := c.forward name.length
  if name.isEmpty || !endsName after.peek then .error .malformed else .ok (String.ofList name, after)

/-- Reads a whole number. -/
def wholeNumber (c : Cursor) : Except ReadError (Nat × Cursor) :=
  let digits := c.run Char.isDigit
  if digits.isEmpty then .error .malformed
  else .ok (digits.foldl (fun n d => 10 * n + (d.toNat - 0x30)) 0, c.forward digits.length)

/-- Reads what a directive says. -/
def directiveValue (name : String) (c : Cursor) : Except ReadError (Directive × Cursor) := do
  if name = "YAML" then
    let (major, c) ← wholeNumber (c.skip (· = ' '))
    if c.peek ≠ '.' then .error .malformed
    else
      let (_, c) ← wholeNumber c.step
      if isSpaceOrEnd c.peek then return (.version major, c) else .error .malformed
  else if name = "TAG" then
    let (handle, c) ← tagHandle (c.skip (· = ' '))
    if c.peek ≠ ' ' then .error .malformed
    else
      let (start, c) ← uri (c.skip (· = ' '))
      if isSpaceOrEnd c.peek then return (.tag handle start, c) else .error .malformed
  else return (.other, c.skip (!isBreak ·))

/-- Reads a directive to the end of its line. -/
def directiveToken (c : Cursor) : Except ReadError (Token × Cursor) := do
  let name := c.step.run isNameChar
  let after := c.step.forward name.length
  if name.isEmpty || !isSpaceOrEnd after.peek then .error .malformed
  else
    let (d, after) ← directiveValue (String.ofList name) after
    return (.directive d, ← after.finishLine)

/-! ### Reading tokens -/

/-- A place where a key may begin that a colon has to follow on the same line. -/
structure KeyPlace where
  /-- The number of tokens before the key. -/
  token : Nat
  /-- Whether nothing but a key can stand there. -/
  required : Bool
  index : Nat
  line : Nat
  column : Nat
  deriving Repr

/-- What was read up to a place, and what is open there. -/
structure Reading where
  cursor : Cursor
  tokens : List Token
  /-- The number of brackets that are open. -/
  depth : Nat
  /-- The column behind the one at which the innermost block stands; zero outside of blocks. -/
  margin : Nat
  /-- The margins of the blocks around it. -/
  outer : List Nat
  /-- Whether a key may begin here. -/
  keyAllowed : Bool
  /-- The key that may have begun at each depth. -/
  keys : List (Nat × KeyPlace)
  deriving Repr

namespace Reading

/-- The start of a text. -/
def start (text : List Char) : Reading :=
  { cursor := (let c := Cursor.start text; if c.peek = byteOrderMark then c.step else c)
    tokens := [], depth := 0, margin := 0, outer := [], keyAllowed := true, keys := [] }

/-- Adds a token. -/
def push (t : Token) (r : Reading) : Reading :=
  { r with tokens := r.tokens ++ [t] }

/-- Moves to another place. -/
def moveTo (c : Cursor) (r : Reading) : Reading :=
  { r with cursor := c }

/-- Moves over blanks, comments and line breaks; outside of brackets a key may begin on a new line. -/
def skipBlanks : Nat → Reading → Reading
  | 0, r => r
  | fuel + 1, r =>
    let c := r.cursor.skip (· = ' ')
    let c := if c.peek = '#' then c.skip (!isBreak ·) else c
    if isBreak c.peek then
      skipBlanks fuel { r with cursor := c.lineBreak.2, keyAllowed := r.keyAllowed || r.depth = 0 }
    else r.moveTo c

/-- The most characters of a key that is not marked as one. -/
def longestKey : Nat := 1024

/-- Whether a key that began at the place cannot end here any more. -/
def isStale (c : Cursor) (k : KeyPlace) : Bool :=
  k.line ≠ c.line || longestKey < c.index - k.index

/-- Gives up keys that cannot end here any more. -/
def dropStaleKeys (r : Reading) : Except ReadError Reading :=
  if r.keys.any fun k => isStale r.cursor k.2 && k.2.required then .error .malformed
  else .ok { r with keys := r.keys.filter fun k => !isStale r.cursor k.2 }

/-- The key that may have begun at this depth. -/
def key? (r : Reading) : Option KeyPlace :=
  (r.keys.find? (·.1 = r.depth)).map (·.2)

/-- Forgets the key of this depth. -/
def forgetKey (r : Reading) : Reading :=
  { r with keys := r.keys.filter (·.1 ≠ r.depth) }

/-- Gives up the key of this depth. -/
def dropKey (r : Reading) : Except ReadError Reading :=
  match r.key? with
  | some k => if k.required then .error .malformed else .ok r.forgetKey
  | none => .ok r

/-- Notes that a key may begin here. -/
def noteKey (r : Reading) : Except ReadError Reading :=
  if r.keyAllowed then do
    let r ← r.dropKey
    let place : KeyPlace :=
      { token := r.tokens.length, required := r.depth = 0 && r.margin = r.cursor.column + 1
        index := r.cursor.index, line := r.cursor.line, column := r.cursor.column }
    return { r with keys := (r.depth, place) :: r.keys }
  else .ok r

/-- Closes the blocks that stand to the right of the margin. -/
def closeBlocks (margin : Nat) (r : Reading) : Reading :=
  if r.depth = 0 then
    let opened := r.margin :: r.outer
    let closed := opened.takeWhile (margin < ·)
    let left := opened.drop closed.length
    { r with
      tokens := r.tokens ++ closed.map fun _ => Token.blockEnd
      margin := left.headD 0
      outer := left.tail }
  else r

/-- Opens a block at the column unless one stands there or further to the right; its token is put in at `place`. -/
def openBlock (t : Token) (column place : Nat) (r : Reading) : Reading :=
  if r.margin ≤ column then
    { r with
      tokens := r.tokens.take place ++ t :: r.tokens.drop place
      margin := column + 1
      outer := r.margin :: r.outer }
  else r

/-- Allows or forbids a key at the next place. -/
def allowKey (allowed : Bool) (r : Reading) : Reading :=
  { r with keyAllowed := allowed }

/-- Reads a directive or a document marker, before which all blocks close. -/
def atMargin (r : Reading) (token : Cursor → Except ReadError (Token × Cursor)) : Except ReadError Reading := do
  let r ← (r.closeBlocks 0).dropKey
  let (t, c) ← token r.cursor
  return ((r.allowKey false).push t).moveTo c

/-- Reads an opening bracket. -/
def openFlow (t : Token) (r : Reading) : Except ReadError Reading := do
  let r ← r.noteKey
  return { r with depth := r.depth + 1, keyAllowed := true, tokens := r.tokens ++ [t], cursor := r.cursor.step }

/-- Reads a closing bracket. -/
def closeFlow (t : Token) (r : Reading) : Except ReadError Reading := do
  let r ← r.dropKey
  if r.depth = 0 then .error .malformed
  else
    return { r with depth := r.depth - 1, keyAllowed := false, tokens := r.tokens ++ [t], cursor := r.cursor.step }

/-- Reads a comma. -/
def flowEntry (r : Reading) : Except ReadError Reading := do
  let r ← r.dropKey
  return ((r.allowKey true).push .flowEntry).moveTo r.cursor.step

/-- Opens a block for a dash or a question mark, unless brackets are open. -/
def openFor (block : Token) (r : Reading) : Except ReadError Reading :=
  if r.depth ≠ 0 then .ok r
  else if r.keyAllowed then .ok (r.openBlock block r.cursor.column r.tokens.length)
  else .error .malformed

/-- Reads a dash. -/
def blockEntry (r : Reading) : Except ReadError Reading := do
  let r ← r.openFor .blockSequenceStart
  let r ← (r.allowKey true).dropKey
  return (r.push .blockEntry).moveTo r.cursor.step

/-- Reads a question mark. -/
def markedKey (r : Reading) : Except ReadError Reading := do
  let r ← r.openFor .blockMappingStart
  let r ← (r.allowKey (r.depth = 0)).dropKey
  return (r.push .key).moveTo r.cursor.step

/-- Reads a colon. If a key may have begun at this depth it is one. -/
def value (r : Reading) : Except ReadError Reading := do
  let r ←
    match r.key? with
    | some k =>
      let r := { r.forgetKey with tokens := r.tokens.take k.token ++ Token.key :: r.tokens.drop k.token }
      let r := if r.depth = 0 then r.openBlock .blockMappingStart k.column k.token else r
      pure (r.allowKey false)
    | none => do
      let r ← r.openFor .blockMappingStart
      (r.allowKey (r.depth = 0)).dropKey
  return (r.push .value).moveTo r.cursor.step

/-- Reads a token that may be a key or begin one. -/
def keyLike (r : Reading) (token : Cursor → Except ReadError (Token × Cursor)) : Except ReadError Reading := do
  let r ← r.noteKey
  let (t, c) ← token r.cursor
  return ((r.allowKey false).push t).moveTo c

/-- Reads a block scalar. -/
def block (folded : Bool) (r : Reading) : Except ReadError Reading := do
  let r ← (r.allowKey true).dropKey
  let (text, c) ← blockScalar folded r.margin r.cursor
  return (r.push (.scalar (String.ofList text) false)).moveTo c

/-- Reads a plain scalar; a key may begin behind it if it ends before a line break. -/
def plain (r : Reading) : Except ReadError Reading := do
  let r ← r.noteKey
  let (text, blanks) := plainScalar (r.depth ≠ 0) r.margin r.cursor
  return ((r.allowKey blanks.broken).push (.scalar (String.ofList text) true)).moveTo blanks.after

/-- Whether a plain scalar begins at the cursor. -/
def startsPlain (r : Reading) : Bool :=
  let c := r.cursor.peek
  !(isSeparator c || "-?:,[]\x7b\x7d#&*!|>'\x22%@\x60".toList.contains c) ||
    (!isSeparator (r.cursor.peekAt 1) && (c = '-' || (r.depth = 0 && (c = '?' || c = ':'))))

/-- Reads the name behind the sign of an anchor or an alias. -/
def named (token : String → Token) (c : Cursor) : Except ReadError (Token × Cursor) := do
  let (name, after) ← anchorName c.step
  return (token name, after)

/-- Reads the text between quotes. -/
def quotedToken (isDouble : Bool) (c : Cursor) : Except ReadError (Token × Cursor) := do
  let (text, after) ← quotedScalar isDouble c
  return (.scalar (String.ofList text) false, after)

/-- Reads the token at the cursor, which is not at the end. -/
def token (r : Reading) : Except ReadError Reading :=
  let c := r.cursor
  let ch := c.peek
  let spaced := isSeparator (c.peekAt 1)
  let atStart := c.column = 0
  if ch = '%' && atStart then r.atMargin directiveToken
  else if atStart && c.atMarker '-' then r.atMargin fun c => .ok (.documentStart, c.forward 3)
  else if atStart && c.atMarker '.' then r.atMargin fun c => .ok (.documentEnd, c.forward 3)
  else if ch = '[' then r.openFlow .flowSequenceStart
  else if ch = '\x7b' then r.openFlow .flowMappingStart
  else if ch = ']' then r.closeFlow .flowSequenceEnd
  else if ch = '\x7d' then r.closeFlow .flowMappingEnd
  else if ch = ',' then r.flowEntry
  else if ch = '-' && spaced then r.blockEntry
  else if ch = '?' && (r.depth ≠ 0 || spaced) then r.markedKey
  else if ch = ':' && (r.depth ≠ 0 || spaced) then r.value
  else if ch = '*' then r.keyLike (named .reference)
  else if ch = '&' then r.keyLike (named .anchor)
  else if ch = '!' then r.keyLike tagToken
  else if ch = '|' && r.depth = 0 then r.block false
  else if ch = '>' && r.depth = 0 then r.block true
  else if ch = '\x27' then r.keyLike (quotedToken false)
  else if ch = '\x22' then r.keyLike (quotedToken true)
  else if r.startsPlain then r.plain
  else .error .malformed

/-- Reads at most `fuel` tokens and closes the blocks that are open at the end. -/
def finish : Nat → Reading → List Token
  | 0, r => r.tokens
  | fuel + 1, r =>
    match (r.skipBlanks (r.cursor.rest.length + 1)).dropStaleKeys with
    | .error e => r.tokens ++ [.broken e]
    | .ok s =>
      if s.cursor.rest.isEmpty then
        match (s.closeBlocks 0).dropKey with
        | .ok s => s.tokens
        | .error e => s.tokens ++ [.broken e]
      else
        let s := s.closeBlocks (s.cursor.column + 1)
        match s.token with
        | .ok next => finish fuel next
        | .error e => s.tokens ++ [.broken e]

end Reading

/-- The tokens of a text; each of them takes at least one character of it. -/
def tokens (text : List Char) : List Token :=
  if text.all isAdmitted then (Reading.start text).finish (text.length + 1) else [.broken .malformed]

end ResponseShapes.Yaml
