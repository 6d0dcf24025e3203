import ResponseShapes.Build.Lock
import ResponseShapes.Build.Signature
import ResponseShapes.Pass.Declarations
import ResponseShapes.Pass.Markers
import ResponseShapes.Pass.Wiring

/-!
# Passes over a project

What can be done with a project as a whole: generate declarations, wire endpoints, rewrite sources, and build, which
does the first two only if sources changed and nobody else does so.
-/

namespace ResponseShapes

variable [Recovery]

/-! ### Settings -/

/-- The path of the settings that a path stands for: in the directory that it names, or else beside it. -/
def settingsPath (d : Disk) (p : Path) : Path :=
  if d.hasDirectory p then d.resolve (p.child settingsFile)
  else if p.name = settingsFile then d.resolve p
  else d.resolve (p.parent.child settingsFile)

/-- The settings that a path stands for; they are the standard ones if the file is missing. -/
def loadSettings (p : Path) : Pass Settings := do
  let d ← Pass.disk
  let file := settingsPath d p
  if d.has file then
    match Settings.ofText file.parent (← Pass.readText file) with
    | .ok s => return s
    | .error e => Pass.interrupt (.settings e)
  else return Settings.standard file.parent

/-- The settings of the project in a directory. -/
def projectSettings (path : String) : Pass Settings := do
  let d ← Pass.disk
  let root := d.resolve (Path.ofString path)
  match d.entry root with
  | .error _ => Pass.interrupt (.projectMissing path)
  | .ok t => if t.isDirectory then loadSettings root else Pass.interrupt (.projectNotDirectory path)

/-- The directory that is searched for sources: the source directory or, if that is missing, the whole project. -/
def searchRoot (s : Settings) : Pass Path := do
  if (← Pass.disk).hasDirectory s.sourceRoot then return s.sourceRoot
  else
    Pass.say .debug .pipeline (s.sourceRoot.toString ++ " does not exist; scanning " ++ s.root.toString)
    return s.root

/-! ### Steps with the paths of the settings -/

/-- Generates the declarations of a project. -/
def generateIn (s : Settings) (root : Path) : Pass Nat :=
  generateDeclarations s root s.servicePattern s.declarationsDir

/-- Wires the endpoints of a project. -/
def wireIn (s : Settings) (root : Path) : Pass Nat :=
  generateWiring s root s.controllerPattern s.outputRoot s.declarationsDir

/-! ### Passes -/

/-- Generates the declarations of the project at a path, and gives the number of modules. -/
def generate (path : String) : Pass Nat := do
  let s ← projectSettings path
  generateIn s (← searchRoot s)

/-- Wires the endpoints of the project at a path, and gives their number. -/
def wire (path : String) : Pass Nat := do
  let s ← projectSettings path
  wireIn s (← searchRoot s)

/-- What a pass over markers did. -/
structure RewriteOutcome where
  declarations : Nat
  endpoints : Nat
  changed : List Path
  /-- Whether the sources stayed as they were. -/
  trial : Bool
  deriving DecidableEq, Repr

/-- Generates, wires, and rewrites the sources of the project at a path. -/
def rewrite (path : String) (trial : Bool) : Pass RewriteOutcome := do
  let s ← projectSettings path
  let root ← searchRoot s
  let declarations ← generateIn s root
  let endpoints ← wireIn s root
  let changed ← rewriteEndpoints s (← Pass.progress).table trial root s.controllerPattern
  return { declarations, endpoints, changed, trial }

/-- What came of a build. -/
inductive BuildOutcome
  /-- The outputs stand for the sources as they are. -/
  | upToDate
  /-- Another build is under way. -/
  | locked
  | generated (declarations endpoints : Nat)
  deriving DecidableEq, Repr

/-- Generates and wires, and leaves a signature. -/
def regenerate (s : Settings) (root : Path) (sources : List Path) : Pass BuildOutcome := do
  let declarations ← generateIn s root
  let endpoints ← wireIn s root
  Signature.record s.declarationsDir sources
  return .generated declarations endpoints

/-- Builds under a lock. -/
def buildLocked (now : Binary64) (lock : Lock) (step : Pass BuildOutcome) : Pass BuildOutcome := do
  let lock ← lock.acquire now
  if lock.held then Pass.andFinally step lock.release
  else
    Pass.say .info .pipeline ("Another generation holds " ++ lock.path.toString ++ "; skipping")
    return .locked

/-- Builds the project at a path: generates and wires, unless nothing changed or another build is under way; `force`
    builds even if nothing changed. -/
def build (now : Binary64) (owner : Nat) (path : String) (force : Bool) : Pass BuildOutcome := do
  let s ← projectSettings path
  let root ← searchRoot s
  let services ← listSources root s.servicePattern s.excludePaths
  let controllers ← listSources root s.controllerPattern s.excludePaths
  let sources := services ++ controllers
  let stale ← if force then pure true else Signature.isStale s.declarationsDir sources
  if stale then buildLocked now (Lock.ofSettings owner s) (regenerate s root sources)
  else
    Pass.say .info .pipeline "Generated responses are up to date; skipping"
    return .upToDate

end ResponseShapes
