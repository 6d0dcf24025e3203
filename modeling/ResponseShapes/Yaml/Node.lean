import ResponseShapes.Entries
import ResponseShapes.Yaml.Tag
import ResponseShapes.Yaml.Token

/-!
# Nodes of a document

The tokens of a document form a tree of scalars, sequences and mappings. A node may have an anchor, and an alias
stands for the node of that anchor, so that a node may contain itself.
-/

namespace ResponseShapes.Yaml

/-- A node. -/
inductive Node
  | scalar (anchor : Option String) (tag : Tag) (text : String)
  | sequence (anchor : Option String) (tag : Tag) (items : List Node)
  | mapping (anchor : Option String) (tag : Tag) (entries : List (Node × Node))
  | reference (name : String)
  deriving Repr, Inhabited

namespace Node

/-- The anchor of a node. -/
def anchor? : Node → Option String
  | scalar a _ _ => a
  | sequence a _ _ => a
  | mapping a _ _ => a
  | reference _ => none

/-- A scalar that is not written. -/
def empty : Node :=
  scalar none .null ""

end Node

/-! ### Reading nodes -/

/-- The tokens that are left, the starts that the handles of tags stand for, and the anchors seen so far. -/
structure NodeReading where
  tokens : List Token
  handles : Entries String
  anchors : List String

/-- Reads from tokens. -/
abbrev NodeReader := StateT NodeReading (Except ReadError)

namespace NodeReader

/-- Refuses the document. -/
def refuse {α : Type} : NodeReader α :=
  throw .malformed

/-- The next token, if there is one. -/
def peek : NodeReader (Option Token) := do
  match (← get).tokens with
  | .broken e :: _ => throw e
  | t :: _ => return some t
  | [] => return none

/-- Moves over a token. -/
def skip : NodeReader Unit :=
  modify fun r => { r with tokens := r.tokens.drop 1 }

/-- Whether the next token is one of the given ones; moves over none. -/
def atAny (ts : List Token) : NodeReader Bool := do
  return (← peek).any ts.contains

/-- Moves over the given token if it is the next one, and tells whether it was. -/
def took (t : Token) : NodeReader Bool := do
  if (← peek) = some t then
    skip
    return true
  else return false

/-- Moves over the given token. -/
def expect (t : Token) : NodeReader Unit := do
  if !(← took t) then refuse

/-- What stands before a node. -/
structure Properties where
  anchor : Option String
  /-- The name of the tag; an exclamation mark alone asks for the tag that the text gives. -/
  tag : Option String

/-- The name of a tag, in which the handle is replaced by what it stands for. -/
def tagName (handle : Option String) (suffix : String) : NodeReader String := do
  match handle with
  | none => return suffix
  | some h =>
    match Entries.get? h (← get).handles with
    | some start => return start ++ suffix
    | none => refuse

/-- Reads a tag if one stands here. -/
def tag? : NodeReader (Option String) := do
  match ← peek with
  | some (.tag handle suffix) =>
    skip
    return some (← tagName handle suffix)
  | _ => return none

/-- Reads an anchor if one stands here. -/
def anchor? : NodeReader (Option String) := do
  match ← peek with
  | some (.anchor name) =>
    skip
    return some name
  | _ => return none

/-- Reads an anchor and a tag in any order. The handle of a tag is looked up behind both. -/
def properties : NodeReader Properties := do
  match ← peek with
  | some (.tag handle suffix) =>
    skip
    let anchor ← anchor?
    return { anchor, tag := some (← tagName handle suffix) }
  | some (.anchor name) =>
    skip
    return { anchor := some name, tag := ← tag? }
  | _ => return { anchor := none, tag := none }

/-- Notes the anchor of a node; an anchor names one node only. -/
def define (p : Properties) : NodeReader Unit := do
  match p.anchor with
  | some name =>
    if (← get).anchors.contains name then refuse else modify fun r => { r with anchors := name :: r.anchors }
  | none => return ()

/-- The tag of a collection. -/
def collectionTag (p : Properties) (given : Tag) : Tag :=
  match p.tag with
  | some name => if name = "!" then given else Tag.ofName name
  | none => given

/-- The tag of a scalar. -/
def scalarTag (p : Properties) (text : String) (isPlain : Bool) : Tag :=
  match p.tag with
  | some name => if name = "!" then Tag.ofText text else Tag.ofName name
  | none => if isPlain then Tag.ofText text else .text

/-- Where a node stands. -/
inductive Place
  /-- Inside brackets. -/
  | flow
  /-- In a block. -/
  | block
  /-- In a mapping of blocks, where a sequence may stand at the margin of its key. -/
  | entry
  deriving DecidableEq, Repr

mutual

/-- Reads a node. -/
def node : Nat → Place → NodeReader Node
  | 0, _ => refuse
  | fuel + 1, place => do
    match ← peek with
    | some (.reference name) =>
      skip
      if (← get).anchors.contains name then return .reference name else refuse
    | _ =>
      let p ← properties
      content fuel place p

/-- Reads a node behind its anchor and its tag. -/
def content : Nat → Place → Properties → NodeReader Node
  | 0, _, _ => refuse
  | fuel + 1, place, p => do
    let inBlock := place ≠ .flow
    match ← peek with
    | some (.scalar text isPlain) =>
      skip
      define p
      return .scalar p.anchor (scalarTag p text isPlain) text
    | some .flowSequenceStart =>
      skip
      define p
      return .sequence p.anchor (collectionTag p .sequence) (← flowItems fuel true)
    | some .flowMappingStart =>
      skip
      define p
      return .mapping p.anchor (collectionTag p .mapping) (← flowEntries fuel true)
    | t =>
      if place = .entry && t = some .blockEntry then
        define p
        return .sequence p.anchor (collectionTag p .sequence) (← blockItems fuel false)
      else if inBlock && t = some .blockSequenceStart then
        skip
        define p
        return .sequence p.anchor (collectionTag p .sequence) (← blockItems fuel true)
      else if inBlock && t = some .blockMappingStart then
        skip
        define p
        return .mapping p.anchor (collectionTag p .mapping) (← blockEntries fuel)
      else if p.anchor.isSome || p.tag.isSome then
        define p
        return .scalar p.anchor (scalarTag p "" true) ""
      else refuse

/-- Reads a node unless one of the given tokens, or the end, follows. -/
def nodeUnless : Nat → Place → List Token → NodeReader Node
  | 0, _, _ => refuse
  | fuel + 1, place, ts => do
    if ← atAny ts then return Node.empty else node fuel place

/-- Reads the items of a sequence of blocks. One that stands at the margin of its key has no end of its own. -/
def blockItems : Nat → Bool → NodeReader (List Node)
  | 0, _ => refuse
  | fuel + 1, hasEnd => do
    if ← took .blockEntry then
      let enders := if hasEnd then [.blockEntry, .blockEnd] else [.blockEntry, .key, .value, .blockEnd]
      let item ← nodeUnless fuel .block enders
      return item :: (← blockItems fuel hasEnd)
    else
      if hasEnd then expect .blockEnd
      return []

/-- Reads the entries of a mapping of blocks. -/
def blockEntries : Nat → NodeReader (List (Node × Node))
  | 0 => refuse
  | fuel + 1 => do
    if ← took .key then
      let key ← nodeUnless fuel .entry [.key, .value, .blockEnd]
      let value ←
        if ← took .value then nodeUnless fuel .entry [.key, .value, .blockEnd] else pure Node.empty
      return (key, value) :: (← blockEntries fuel)
    else
      expect .blockEnd
      return []

/-- Reads the items of a sequence between brackets; an entry with a colon is a mapping of its own. -/
def flowItems : Nat → Bool → NodeReader (List Node)
  | 0, _ => refuse
  | fuel + 1, isFirst => do
    if ← took .flowSequenceEnd then return []
    else
      if !isFirst then expect .flowEntry
      if ← took .key then
        let key ← nodeUnless fuel .flow [.value, .flowEntry, .flowSequenceEnd]
        let value ←
          if ← took .value then nodeUnless fuel .flow [.flowEntry, .flowSequenceEnd] else pure Node.empty
        return .mapping none .mapping [(key, value)] :: (← flowItems fuel false)
      else if ← took .flowSequenceEnd then return []
      else
        let item ← node fuel .flow
        return item :: (← flowItems fuel false)

/-- Reads the entries of a mapping between braces. -/
def flowEntries : Nat → Bool → NodeReader (List (Node × Node))
  | 0, _ => refuse
  | fuel + 1, isFirst => do
    if ← took .flowMappingEnd then return []
    else
      if !isFirst then expect .flowEntry
      if ← took .key then
        let key ← nodeUnless fuel .flow [.value, .flowEntry, .flowMappingEnd]
        let value ←
          if ← took .value then nodeUnless fuel .flow [.flowEntry, .flowMappingEnd] else pure Node.empty
        return (key, value) :: (← flowEntries fuel false)
      else if ← took .flowMappingEnd then return []
      else
        let key ← node fuel .flow
        return (key, Node.empty) :: (← flowEntries fuel false)

end

/-! ### Documents -/

/-- The starts that handles stand for unless a directive says otherwise. -/
def standardHandles : Entries String :=
  [("!", "!"), ("!!", Tag.nameSpace)]

/-- Reads the directives before a document. A version other than the first is refused, and so is a second directive of
    a version or of a handle. -/
def directives : Nat → Bool → NodeReader Unit
  | 0, _ => refuse
  | fuel + 1, hasVersion => do
    match ← peek with
    | some (.directive (.version major)) =>
      skip
      if hasVersion || major ≠ 1 then refuse else directives fuel true
    | some (.directive (.tag handle start)) =>
      skip
      let handles := (← get).handles
      if handles.has handle then refuse
      else
        modify fun r => { r with handles := handles.put handle start }
        directives fuel hasVersion
    | some (.directive .other) =>
      skip
      directives fuel hasVersion
    | _ => modify fun r => { r with handles := standardHandles.putAll r.handles }

/-- Moves over the ends of documents. -/
def documentEnds : Nat → NodeReader Unit
  | 0 => refuse
  | fuel + 1 => do
    if ← took .documentEnd then documentEnds fuel

/-- Whether the next token is a directive. -/
def atDirective : NodeReader Bool := do
  match ← peek with
  | some (.directive _) => return true
  | _ => return false

/-- Reads the content of a document behind the marker of its start. -/
def documentContent (fuel : Nat) : NodeReader Node := do
  let ended := (← peek).isNone
  if ended || (← atDirective) || (← atAny [.documentStart, .documentEnd]) then return Node.empty
  else node fuel .block

/-- Reads a text of at most one document. Only the first document may go without a marker of its start. -/
def document (fuel : Nat) : NodeReader (Option Node) := do
  match ← peek with
  | none => return none
  | some _ =>
    let marked := (← atDirective) || (← atAny [.documentStart])
    if marked then
      directives fuel false
      expect .documentStart
    else modify fun r => { r with handles := standardHandles }
    let root ← if marked then documentContent fuel else node fuel .block
    documentEnds fuel
    if (← peek).isSome then refuse else return some root

end NodeReader

/-- The node of the document in a text; none when the text holds no document. -/
def Node.ofText (text : List Char) : Except ReadError (Option Node) :=
  let ts := tokens text
  match (NodeReader.document (8 * (ts.length + 2))).run { tokens := ts, handles := [], anchors := [] } with
  | .ok (root, _) => .ok root
  | .error e => .error e

end ResponseShapes.Yaml
