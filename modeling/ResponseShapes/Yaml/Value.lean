import ResponseShapes.Yaml.Node
import ResponseShapes.Yaml.Scalar

/-!
# Values of documents

A document stands for a value made of scalars, lists and mappings. A merge key takes the entries of other mappings
into its own, in front of the mapping's own ones. Nodes may contain themselves, so a value is taken down to a given
depth only.
-/

namespace ResponseShapes.Yaml

/-- The value of a document. Lists also stand for ordered mappings and for pairs. -/
inductive Value
  | scalar (s : Scalar)
  | list (items : List Value)
  | map (entries : List (Value × Value))
  | set
  deriving Repr, Inhabited

namespace Value

/-- The value that stands for nothing. -/
abbrev null : Value := scalar .null

/-- The value of a text key; a later entry counts more than an earlier one. -/
def get? (key : String) (entries : List (Value × Value)) : Option Value :=
  (entries.reverse.find? fun e =>
    match e.1 with
    | scalar (.text s) => s = key
    | _ => false).map (·.2)

end Value

namespace Node

mutual

/-- The number of nodes in a tree. -/
def size : Node → Nat
  | sequence _ _ items => sizeOfItems items + 1
  | mapping _ _ entries => sizeOfEntries entries + 1
  | _ => 1

/-- The number of nodes in several trees. -/
def sizeOfItems : List Node → Nat
  | [] => 0
  | n :: ns => n.size + sizeOfItems ns

/-- The number of nodes in an entry of a mapping. -/
def sizeOfEntry : Node × Node → Nat
  | (k, v) => k.size + v.size

/-- The number of nodes in the entries of a mapping. -/
def sizeOfEntries : List (Node × Node) → Nat
  | [] => 0
  | e :: es => sizeOfEntry e + sizeOfEntries es

end

/-- A node with its anchor, if it has one. -/
def withAnchor (n : Node) (inner : List (String × Node)) : List (String × Node) :=
  match n.anchor? with
  | some a => (a, n) :: inner
  | none => inner

mutual

/-- The nodes of a tree that have anchors. -/
def anchored : Node → List (String × Node)
  | scalar a t s => withAnchor (scalar a t s) []
  | sequence a t items => withAnchor (sequence a t items) (anchoredItems items)
  | mapping a t entries => withAnchor (mapping a t entries) (anchoredEntries entries)
  | reference _ => []

/-- The nodes of several trees that have anchors. -/
def anchoredItems : List Node → List (String × Node)
  | [] => []
  | n :: ns => n.anchored ++ anchoredItems ns

/-- The nodes of an entry that have anchors. -/
def anchoredEntry : Node × Node → List (String × Node)
  | (k, v) => k.anchored ++ v.anchored

/-- The nodes of the entries of a mapping that have anchors. -/
def anchoredEntries : List (Node × Node) → List (String × Node)
  | [] => []
  | e :: es => anchoredEntry e ++ anchoredEntries es

end

end Node

/-- A document: its root, and the nodes that aliases stand for. -/
structure Document where
  root : Node
  anchors : List (String × Node)

namespace Document

/-- The document of a root. -/
def ofRoot (root : Node) : Document :=
  { root, anchors := root.anchored }

/-- The node that a node stands for. -/
def target (d : Document) (n : Node) : Node :=
  match n with
  | .reference name => (Entries.get? name d.anchors).getD Node.empty
  | n => n

/-- The tag of a node. -/
def tagOf (d : Document) (n : Node) : Tag :=
  match d.target n with
  | .scalar _ t _ => t
  | .sequence _ t _ => t
  | .mapping _ t _ => t
  | .reference _ => .unknown

/-- The entries of the mappings in a list, the last mapping first. -/
def joinEntries : List (List (Node × Node)) → List (Node × Node)
  | [] => []
  | es :: rest => joinEntries rest ++ es

/-- The entries of a mapping behind those that its merge keys take in. The depth bounds mappings that take each other
    in. -/
def flattened (d : Document) : Nat → List (Node × Node) → Except Fault (List (Node × Node))
  | 0, _ => .ok []
  | depth + 1, entries => do
    let merged ← (entries.filter fun e => d.tagOf e.1 = .merge).mapM fun e =>
      match d.target e.2 with
      | .mapping _ _ inner => d.flattened depth inner
      | .sequence _ _ items => do
        let parts ← items.mapM fun item =>
          match d.target item with
          | .mapping _ _ inner => d.flattened depth inner
          | _ => .error .malformed
        return joinEntries parts
      | _ => .error .malformed
    return merged.flatten ++ entries.filter fun e => d.tagOf e.1 ≠ .merge

/-- The text of a node that stands for a scalar: its own, or that under the value key of a mapping. -/
def scalarText (d : Document) : Nat → Node → Except Fault String
  | 0, _ => .error .malformed
  | depth + 1, n =>
    match d.target n with
    | .scalar _ _ text => .ok text
    | .mapping _ _ entries =>
      match entries.find? fun e => d.tagOf e.1 = .value with
      | some (_, v) => d.scalarText depth v
      | none => .error .malformed
    | _ => .error .malformed

/-- A bound for the depth of nodes. -/
def depth (d : Document) : Nat :=
  d.root.size + 1

/-- Whether a tag is that of a collection. -/
def isCollection (t : Tag) : Bool :=
  [Tag.sequence, .mapping, .set, .orderedMap, .pairs].contains t

/-- The scalar that a node stands for. -/
def scalar (d : Document) (n : Node) : Except Fault Scalar := do
  Scalar.read (d.tagOf n) (← d.scalarText d.depth n)

/-! ### Checking

Scalars are checked where they are met, and collections after all nodes that stand no deeper, so that the first fault
is the least deep one. -/

/-- Checks a node, unless it is a collection that is checked later; of those gives the node. -/
def visit (d : Document) (n : Node) : Except Fault (List Node) :=
  let t := d.tagOf n
  if isCollection t then .ok [d.target n] else (d.scalar n).map fun _ => []

/-- Checks a key, which is a scalar. The value key counts as a text. -/
def visitKey (d : Document) (n : Node) : Except Fault Unit :=
  let t := d.tagOf n
  if t = .value then .ok ()
  else if isCollection t then .error .malformed
  else (d.scalar n).map fun _ => ()

/-- Checks the entries of a mapping, and gives the collections among its values. -/
def visitEntries (d : Document) (entries : List (Node × Node)) : Except Fault (List Node) := do
  let inner ← (← d.flattened d.depth entries).mapM fun e => do
    d.visitKey e.1
    d.visit e.2
  return inner.flatten

/-- Checks the single entry of a mapping in a list of pairs. -/
def visitPair (d : Document) (n : Node) : Except Fault (List Node) :=
  match d.target n with
  | .mapping _ _ [(k, v)] => do return (← d.visit k) ++ (← d.visit v)
  | _ => .error .malformed

/-- Checks what stands directly in a collection, and gives the collections in it. -/
def visitInside (d : Document) (n : Node) : Except Fault (List Node) :=
  match d.tagOf n, n with
  | .sequence, .sequence _ _ items => do return (← items.mapM d.visit).flatten
  | .mapping, .mapping _ _ entries => d.visitEntries entries
  | .set, .mapping _ _ entries => d.visitEntries entries
  | .orderedMap, .sequence _ _ items => do return (← items.mapM d.visitPair).flatten
  | .pairs, .sequence _ _ items => do return (← items.mapM d.visitPair).flatten
  | _, _ => .error .malformed

/-- Checks collections in order, those in them afterwards, and each node with an anchor once. -/
def visitAll (d : Document) : Nat → List String → List Node → Except Fault Unit
  | 0, _, _ => .ok ()
  | _, _, [] => .ok ()
  | fuel + 1, seen, n :: queue =>
    if n.anchor?.any seen.contains then d.visitAll fuel seen queue
    else do
      let inner ← d.visitInside n
      d.visitAll fuel (n.anchor?.toList ++ seen) (queue ++ inner)

/-- Checks the whole document. Each collection is met at most once for every mapping that takes it in. -/
def check (d : Document) : Except Fault Unit := do
  d.visitAll (d.depth * d.depth) [] (← d.visit d.root)

/-! ### Building -/

/-- The value of a key, whose scalar is in order. The value key counts as a text. -/
def keyValue (d : Document) (n : Node) : Value :=
  if d.tagOf n = .value then .scalar (.text ((d.scalarText d.depth n).toOption.getD ""))
  else .scalar ((d.scalar n).toOption.getD .null)

/-- The value of a node whose scalars are in order, down to the given number of collections inside each other. -/
def valueTo (d : Document) : Nat → Node → Value
  | 0, n => .scalar ((d.scalar n).toOption.getD .null)
  | depth + 1, n =>
    match d.tagOf n, d.target n with
    | .mapping, .mapping _ _ entries =>
      let pairs := (d.flattened d.depth entries).toOption.getD []
      .map (pairs.map fun e => (d.keyValue e.1, d.valueTo depth e.2))
    | .sequence, .sequence _ _ items => .list (items.map (d.valueTo depth))
    | .set, _ => .set
    | .orderedMap, .sequence _ _ items => .list (items.map fun _ => .list [])
    | .pairs, .sequence _ _ items => .list (items.map fun _ => .list [])
    | _, _ => .scalar ((d.scalar n).toOption.getD .null)

end Document

/-- The value of a text, down to the given number of collections inside each other; null when the text holds no
    document. -/
def Value.ofText (depth : Nat) (text : List Char) : Except Fault Value := do
  match Node.ofText text with
  | .error e => .error (.ofRead e)
  | .ok none => return .null
  | .ok (some root) =>
    let d := Document.ofRoot root
    d.check
    return d.valueTo depth d.root

end ResponseShapes.Yaml
