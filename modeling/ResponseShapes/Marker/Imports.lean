import ResponseShapes.Endpoint.Wiring
import ResponseShapes.Marker.Plan
import ResponseShapes.Syntax.Module

/-!
# Imports of a rewritten source

When all markers of a source are gone their names leave its imports, and the names that new decorators use come in:
the decorators through the last import of the documentation framework that lists names, the lookup objects through
imports of their own.
-/

namespace ResponseShapes

open Syntax

/-- What becomes of an import. -/
inductive ImportChange
  | kept
  | removed
  /-- The import lists these specifiers. -/
  | relisted (specifiers : List String)
  deriving DecidableEq, Repr

/-- The names that a source needs from its imports. -/
structure ImportNeeds where
  /-- Whether the names of markers are dropped. -/
  dropMarkers : Bool
  /-- The documenting decorators that are not imported yet. -/
  decorators : List String
  /-- The lookup objects that are not imported yet, each with the specifier of its module. -/
  lookups : List NameImport
  deriving Repr

/-- The position of the last import of the framework that lists names and nothing else. -/
def frameworkImport? (docs : Documentation) (imports : List Import) : Option Nat :=
  (imports.zipIdx.reverse.find? fun (i, _) => i.source = docs.module && i.hasNames && !i.hasOtherBindings).map (·.2)

/-- The specifiers of an import without those of markers. -/
def remainingSpecifiers (c : Conventions) (drop : Bool) (i : Import) : List String :=
  (if drop then i.specifiers.filter fun p => !c.markers.contains p.name else i.specifiers).map (·.text)

/-- What becomes of an import to which the names `added` come. A default binding or one of the whole module is left
    alone. -/
def importChange (c : Conventions) (drop : Bool) (added : List String) (i : Import) : ImportChange :=
  let before := i.specifiers.map (·.text)
  let after := remainingSpecifiers c drop i ++ added
  if after = before || i.hasOtherBindings then .kept else if after.isEmpty then .removed else .relisted after

/-- The import with other specifiers, as it is written. -/
def relistedText (s : Source) (i : Import) (specifiers : List String) : List Char :=
  let source := ((i.node.child? .source).map s.textOf).getD ("'" ++ i.source ++ "'")
  let closed := (Text.dropEndWhile Text.isBlank (s.charsOf i.node)).getLast? = some ';'
  ("import \x7b " ++ String.intercalate ", " specifiers ++ " \x7d from " ++ source).toList ++
    (if closed then [';'] else [])

/-- Removes a node with the blanks behind it and the end of its line. -/
def lineRemoval (s : Source) (n : Node) : Edit Char :=
  let rest := s.text.drop n.stop
  let blanks := rest.takeWhile fun c => c == ' ' || c == '\t' || c == '\r'
  let lineEnd := if (rest.drop blanks.length).head? = some '\n' then 1 else 0
  { start := n.start, stop := n.stop + blanks.length + lineEnd, replacement := [] }

/-- The edit for a change of an import. -/
def changeEdit? (s : Source) (i : Import) : ImportChange → Option (Edit Char)
  | .kept => none
  | .removed => some (lineRemoval s i.node)
  | .relisted specifiers =>
    some { start := i.node.start, stop := i.node.stop, replacement := relistedText s i specifiers }

/-- The imports of a source, each with what becomes of it. -/
def importChanges (c : Settings) (needs : ImportNeeds) (imports : List Import) : List (Import × ImportChange) :=
  let framework := frameworkImport? c.documentation imports
  imports.zipIdx.map fun (i, k) =>
    (i, importChange c.conventions needs.dropMarkers (if framework = some k then needs.decorators else []) i)

/-- The imports that come in on lines of their own. -/
def newImportLines (docs : Documentation) (needs : ImportNeeds) (imports : List Import) : List String :=
  let framework :=
    if (frameworkImport? docs imports).isNone && !needs.decorators.isEmpty then
      [NameImport.line { name := String.intercalate ", " needs.decorators, specifier := docs.module }]
    else []
  framework ++ needs.lookups.map NameImport.line

/-- Where new imports come in: behind the last import of the framework, else behind the last import, else where the
    first import stood, else at the start. -/
def newImportsEdit (docs : Documentation) (changes : List (Import × ImportChange)) (lines : List String) :
    List (Edit Char) :=
  if lines.isEmpty then []
  else
    let kept := (changes.filter fun (_, change) => change ≠ .removed).map (·.1)
    let anchor := (kept.reverse.find? fun i => i.source = docs.module).or kept.getLast?
    match anchor, changes with
    | some i, _ =>
      [{ start := i.node.stop, stop := i.node.stop, replacement := lines.flatMap fun l => '\n' :: l.toList }]
    | none, (i, _) :: _ =>
      [{ start := i.node.start, stop := i.node.start, replacement := lines.flatMap fun l => l.toList ++ ['\n'] }]
    | none, [] => [{ start := 0, stop := 0, replacement := (String.intercalate "\n" lines ++ "\n\n").toList }]

/-- The edits of the imports of a source. -/
def importEdits (c : Settings) (s : Source) (needs : ImportNeeds) : List (Edit Char) :=
  let changes := importChanges c needs s.imports
  changes.filterMap (fun (i, change) => changeEdit? s i change) ++
    newImportsEdit c.documentation changes (newImportLines c.documentation needs s.imports)

/-- The specifier of a module as seen from the source at `path`, or from the project's root. -/
def moduleSpecifier (root : Path) (path : Option Path) (module : Path) : String :=
  Path.specifier ((path.map Path.parent).getD root) module

/-- Texts in order, each of them once. -/
def sortedNames (names : List String) : List String :=
  names.eraseDups.mergeSort fun a b => !decide (b < a)

/-- What a plan needs from the imports of its source. -/
def Plan.needs (c : Settings) (path : Option Path) (imports : List Import) (p : Plan) : ImportNeeds :=
  let bound := imports.flatMap Import.localNames
  let lookups := Entries.ofList p.lookups
  { dropMarkers := p.removed = p.markers
    decorators := (sortedNames p.decorators).filter fun name => !bound.contains name
    lookups := (sortedNames lookups.keys).filterMap fun name =>
      if bound.contains name then none
      else (Entries.get? name lookups).map fun module =>
        { name, specifier := moduleSpecifier c.root path module } }

end ResponseShapes
