import ResponseShapes.Declaration.Naming
import ResponseShapes.Pass.Basic
import ResponseShapes.Project.Ignore

/-!
# Sources of a pass

The sources below a directory are the files that a glob describes and that nothing leaves out. A directory that is
left out is not entered, so nothing takes a file in it back in.
-/

namespace ResponseShapes

/-- Names of directories that hold no sources. -/
def excludedNames : List String :=
  [".git", ".hg", ".svn", ".idea", ".vscode", "node_modules", "dist", "coverage", ".turbo"]

/-- The path of a place below a directory. -/
def placePath (place : List String) : String :=
  String.intercalate "/" place

/-- Whether a directory is entered. -/
def entersDirectory (rules : List IgnoreRule) (place : List String) : Bool :=
  !place.getLast?.any excludedNames.contains && !isIgnored rules (placePath place) true

/-- Whether a file is taken. -/
def takesFile (rules : List IgnoreRule) (place : List String) : Bool :=
  !isIgnored rules (placePath place) false

/-- The places of the sources in a tree. -/
def sourcePlaces (rules : List IgnoreRule) (glob : Glob) (t : Tree) : List (List String) :=
  (t.walk (entersDirectory rules) (takesFile rules) []).filter fun place => glob.describes (placePath place)

/-- The name of the file that holds the rules of a directory. -/
def ignoreFile : String := ".gitignore"

/-- The rules in a file; a missing file holds none. -/
def readRules (file : Path) : Pass (List IgnoreRule) := do
  if (← Pass.disk).has file then return IgnoreRule.ofText (← Pass.readText file) else return []

/-- The rules of the project in a directory: those of its ignore file and then the given ones. -/
def ignoreRules (root : Path) (exclude : List String) : Pass (List IgnoreRule) := do
  return (← readRules (root.child ignoreFile)) ++ exclude.filterMap (IgnoreRule.ofString? false)

/-- The sources below a directory that a glob describes, in order. -/
def listSources (root : Path) (pattern : String) (exclude : List String) : Pass (List Path) := do
  let d ← Pass.disk
  let top := d.resolve root
  match (d.entry top).toOption with
  | none => Pass.interrupt (.sourcesMissing root)
  | some (.file _ _) => Pass.interrupt (.sourcesNotDirectory root)
  | some t =>
    let rules ← ignoreRules top exclude
    let places := sourcePlaces rules (Glob.ofString pattern) t
    return Path.sort (places.map fun place => { top with parts := top.parts ++ place })

/-- The declaration modules in a directory, in order; whatever has such a name counts. -/
def moduleEntries (d : Disk) (directory : Path) : List Path :=
  Path.sort (((d.names directory).filter fun name => Text.endsWith name moduleSuffix).map directory.child)

end ResponseShapes
