import ResponseShapes.Declaration.Naming
import ResponseShapes.Edit
import ResponseShapes.Endpoint.Table
import ResponseShapes.Marker.Options

/-!
# What becomes of markers

Each handler that is marked, itself or by a marker of its class, is resolved to a declaration and documented by a
decorator in the place of its markers. A handler that cannot be resolved keeps its markers, and so does its class if
the handler has none of its own.
-/

namespace ResponseShapes

open Syntax

/-- The name in an option, if it is not empty. -/
def givenName (option : Option String) : Option String :=
  option.filter fun name => !name.isEmpty

/-- The unit that a handler of an endpoint belongs to. -/
def owningUnit? (conventions : Conventions) (key : Option String) (o : MarkerOptions) : Option String :=
  (givenName o.unit).or (key.map (· ++ conventions.unitSuffix))

/-- The list flag and the status that follow for a handler that is answered by a member of a unit: those of the
    table, if it says the same of the handler, else those that names and verb imply. -/
def impliedAnswer (conventions : Conventions) (t : LookupTable) (key : Option String) (m : Method)
    (unit member : String) : Bool × Status :=
  let implied := (returnsList member, Status.ofVerb (m.verb? conventions.verbs) conventions.createVerb)
  match key.bind (t.get? · m.name) with
  | some known => if known.unit = unit && known.member = member then (known.isList, known.status) else implied
  | none => implied

/-- What is documented for a handler; none if its declaration is not known. -/
def resolve? (conventions : Conventions) (t : LookupTable) (key : Option String) (m : Method) (o : MarkerOptions) :
    Option Mapping := do
  let unit ← owningUnit? conventions key o
  let member := (givenName o.member).getD m.name
  let d ← t.unit? unit
  let declaration ← Entries.get? member d.members
  let (isList, status) := impliedAnswer conventions t key m unit member
  return {
    endpoint := (givenName key).getD unit, handler := m.name, unit, member, declaration
    reference := d.lookup ++ "." ++ member
    isList := o.isList.getD isList
    status := (o.status.bind Status.requested?).getD status
    verb := m.verb? conventions.verbs }

/-! ### Decorators -/

/-- One character of a text between apostrophes. -/
def literalChar (c : Char) : List Char :=
  if c = '\\' || c = '\x27' then ['\\', c] else if c = '\n' then ['\\', 'n'] else [c]

/-- A text between apostrophes. -/
def literal (s : String) : String :=
  String.ofList ('\x27' :: s.toList.flatMap literalChar ++ ['\x27'])

/-- The decorator that documents a status. -/
def Documentation.decoratorFor (docs : Documentation) : Status → String
  | .created => docs.createdDecorator
  | _ => docs.okDecorator

/-- The decorator that documents a handler, as it is written. -/
def decoratorText (docs : Documentation) (mapping : Mapping) (o : MarkerOptions) : String :=
  let parts :=
    ["type: " ++ mapping.reference] ++ (if mapping.isList then ["isArray: true"] else []) ++
      ((givenName o.description).map fun d => "description: " ++ literal d).toList
  "@" ++ docs.decoratorFor mapping.status ++ "(\x7b " ++ String.intercalate ", " parts ++ " \x7d)"

/-! ### Handlers -/

/-- Whether a decorator is a marker. -/
def isMarker (conventions : Conventions) (d : Decorator) : Bool :=
  d.name.any conventions.markers.contains

/-- The markers among decorators. -/
def markersOf (conventions : Conventions) (ds : List Decorator) : List Decorator :=
  ds.filter (isMarker conventions)

/-- Whether a method is a handler that nothing documents yet. -/
def needsDefault (conventions : Conventions) (docs : Documentation) (m : Method) : Bool :=
  m.isAnalyzable && (m.verb? conventions.verbs).isSome &&
    !m.decoratorNames.any fun name => name = docs.okDecorator || name = docs.createdDecorator

/-- The options for a method, if it is marked: its own over those of its class, or those of its class alone. -/
def optionsFor? (c : Settings) (s : Source) (classMarkers : List Decorator) (m : Method) : Option MarkerOptions :=
  let inherited := (classMarkers.head?.map (MarkerOptions.ofMarker c.conventions s)).getD .empty
  match markersOf c.conventions m.decorators with
  | own :: _ => some ((MarkerOptions.ofMarker c.conventions s own).withDefaults inherited)
  | [] =>
    if !classMarkers.isEmpty && needsDefault c.conventions c.documentation m then some inherited else none

/-- What becomes of a method. -/
inductive Handling
  /-- The method is not marked. -/
  | unmarked
  /-- No declaration is known for the method. -/
  | unresolved
  /-- The method is documented by the mapping. -/
  | documented (mapping : Mapping) (options : MarkerOptions)
  deriving DecidableEq, Repr

/-- What becomes of a method of the endpoint `key`. -/
def handlingOf (c : Settings) (t : LookupTable) (s : Source) (key : Option String) (classMarkers : List Decorator)
    (m : Method) : Handling :=
  match optionsFor? c s classMarkers m with
  | none => .unmarked
  | some options =>
    match resolve? c.conventions t key m options with
    | none => .unresolved
    | some mapping => .documented mapping options

/-! ### Edits -/

/-- Removes a node and the blanks up to what follows it. -/
def removal (s : Source) (n : Node) : Edit Char :=
  let blanks := (s.text.drop n.stop).takeWhile fun c => c == ' ' || c == '\t' || c == '\r' || c == '\n'
  { start := n.start, stop := n.stop + blanks.length, replacement := [] }

/-- The decorator that ends last. -/
def lastDecorator? : List Decorator → Option Decorator
  | [] => none
  | d :: ds => some (ds.foldl (fun last e => if last.node.stop < e.node.stop then e else last) d)

/-- Puts a text on a line of its own behind the decorators of a method. -/
def insertion (s : Source) (m : Method) (text : String) : List (Edit Char) :=
  match lastDecorator? m.decorators with
  | some d =>
    [{ start := d.node.stop, stop := d.node.stop
       replacement := '\n' :: s.lineIndent d.node.start ++ text.toList }]
  | none => []

/-- Puts a decorator in the place of the markers of a method, or behind its decorators if it has none. -/
def documentingEdits (conventions : Conventions) (s : Source) (m : Method) (text : String) : List (Edit Char) :=
  match markersOf conventions m.decorators with
  | first :: others =>
    { start := first.node.start, stop := first.node.stop, replacement := text.toList } ::
      others.map fun d => removal s d.node
  | [] => insertion s m text

/-- What is done to part of a source. -/
structure Plan where
  edits : List (Edit Char)
  /-- The lookup objects that new decorators refer to, with their modules. -/
  lookups : List (String × Path)
  /-- The names of new decorators. -/
  decorators : List String
  /-- The number of markers, and of those that are removed. -/
  markers : Nat
  removed : Nat
  rewritten : Nat
  unresolved : List String
  deriving Repr

namespace Plan

/-- Nothing is done. -/
def empty : Plan :=
  { edits := [], lookups := [], decorators := [], markers := 0, removed := 0, rewritten := 0, unresolved := [] }

/-- What both plans do. -/
def append (p q : Plan) : Plan :=
  { edits := p.edits ++ q.edits
    lookups := p.lookups ++ q.lookups
    decorators := p.decorators ++ q.decorators
    markers := p.markers + q.markers
    removed := p.removed + q.removed
    rewritten := p.rewritten + q.rewritten
    unresolved := p.unresolved ++ q.unresolved }

/-- What all plans do. -/
def join (plans : List Plan) : Plan :=
  plans.foldl append empty

/-- The plan for a method of a class. -/
def ofMethod (c : Settings) (t : LookupTable) (s : Source) (cls : ClassDeclaration) (key : Option String)
    (classMarkers : List Decorator) (m : Method) : Plan :=
  let own := (markersOf c.conventions m.decorators).length
  match handlingOf c t s key classMarkers m with
  | .unmarked => { empty with markers := own }
  | .unresolved => { empty with markers := own, unresolved := [cls.name ++ "." ++ m.name] }
  | .documented mapping options =>
    { edits := documentingEdits c.conventions s m (decoratorText c.documentation mapping options)
      lookups := ((t.unit? mapping.unit).map fun d => (d.lookup, d.module)).toList
      decorators := [c.documentation.decoratorFor mapping.status]
      markers := own
      removed := own
      rewritten := 1
      unresolved := [] }

/-- Whether a method keeps the markers of its class: it depends on them alone and cannot be resolved. -/
def keepsClassMarkers (c : Settings) (t : LookupTable) (s : Source) (key : Option String)
    (classMarkers : List Decorator) (m : Method) : Bool :=
  (markersOf c.conventions m.decorators).isEmpty && handlingOf c t s key classMarkers m = .unresolved

/-- The plan for the markers of a class itself. -/
def ofClassMarkers (s : Source) (classMarkers : List Decorator) (kept : Bool) : Plan :=
  { empty with
    edits := if kept then [] else classMarkers.map fun d => removal s d.node
    markers := classMarkers.length
    removed := if kept then 0 else classMarkers.length }

/-- The plan for a class. -/
def ofClass (c : Settings) (t : LookupTable) (s : Source) (cls : ClassDeclaration) : Plan :=
  let classMarkers := markersOf c.conventions cls.decorators
  let key := stem? c.conventions.endpointSuffix cls.name
  let methods := join (cls.methods.map (ofMethod c t s cls key classMarkers))
  methods.append (ofClassMarkers s classMarkers (cls.methods.any (keepsClassMarkers c t s key classMarkers)))

/-- The plan for a source. -/
def ofSource (c : Settings) (t : LookupTable) (s : Source) : Plan :=
  join (s.classes.map (ofClass c t s))

end Plan

end ResponseShapes
