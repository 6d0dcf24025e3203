import ResponseShapes.Project.Path
import ResponseShapes.Project.Tree
import ResponseShapes.Text.Quotation
import ResponseShapes.Text.Utf8

/-!
# The disk

The files of the machine, with the directory that relative paths start from and the time that new files get. Each
operation either gives its result or says why it cannot be done.
-/

namespace ResponseShapes

/-- Why an operation on files cannot be done. -/
inductive DiskCause
  | missing | taken | notDirectory | isDirectory
  deriving DecidableEq, Repr

namespace DiskCause

/-- The number of a cause. -/
def number : DiskCause → Nat
  | missing => 2
  | taken => 17
  | notDirectory => 20
  | isDirectory => 21

/-- The words for a cause. -/
def words : DiskCause → String
  | missing => "No such file or directory"
  | taken => "File exists"
  | notDirectory => "Not a directory"
  | isDirectory => "Is a directory"

end DiskCause

/-- An operation on a path that cannot be done. -/
structure DiskError where
  cause : DiskCause
  path : Path
  deriving DecidableEq, Repr

/-- What is said about the error. -/
def DiskError.message (e : DiskError) : String :=
  s!"[Errno {e.cause.number}] {e.cause.words}: {Text.quoted e.path.toString}"

/-- Why a text cannot be read. -/
inductive TextError
  | disk (e : DiskError)
  | encoding (e : Text.EncodingError)
  deriving DecidableEq, Repr

/-- What is said about the error. -/
def TextError.message : TextError → String
  | disk e => e.message
  | encoding e => e.message

/-- The files of the machine. -/
structure Disk where
  tree : Tree
  /-- The directory that relative paths start from. -/
  here : Path
  /-- The time that files get when they are written, in nanoseconds. -/
  clock : Int
  deriving Repr

namespace Disk

/-- Follows names from a place; `back` holds the names on the way to it, the last one first. -/
def follow (t : Tree) (back : List String) : List String → Except DiskCause (List String)
  | [] => .ok back.reverse
  | name :: names =>
    match t.find? back.reverse with
    | none => .error .missing
    | some (.file _ _) => .error .notDirectory
    | some (.directory _ _) => if name = ".." then follow t back.tail names else follow t (name :: back) names

/-- The place that a path leads to; what stands there may be missing, but not the directory around it. -/
def place (d : Disk) (p : Path) : Except DiskCause (List String) :=
  follow d.tree [] (d.here.join p).parts

/-- The cause of an error with the path that it is about. -/
def about {α : Type} (p : Path) : Except DiskCause α → Except DiskError α
  | .ok a => .ok a
  | .error cause => .error { cause, path := p }

/-- What a path leads to. -/
def entry (d : Disk) (p : Path) : Except DiskError Tree := about p do
  match d.tree.find? (← d.place p) with
  | some t => return t
  | none => .error .missing

/-- Whether something stands at a path. -/
def has (d : Disk) (p : Path) : Bool :=
  (d.entry p).isOk

/-- Whether a directory stands at a path. -/
def hasDirectory (d : Disk) (p : Path) : Bool :=
  match d.entry p with
  | .ok t => t.isDirectory
  | .error _ => false

/-- The names in a directory. -/
def names (d : Disk) (p : Path) : List String :=
  match d.entry p with
  | .ok t => t.names
  | .error _ => []

/-- The bytes of a file. -/
def readBytes (d : Disk) (p : Path) : Except DiskError (List UInt8) := do
  match ← d.entry p with
  | .file content _ => return content
  | .directory _ _ => .error { cause := .isDirectory, path := p }

/-- The text of a file, in which every line ends with a line feed. -/
def readText (d : Disk) (p : Path) : Except TextError (List Char) :=
  match d.readBytes p with
  | .error e => .error (.disk e)
  | .ok bytes =>
    match Text.decode bytes with
    | .ok cs => .ok (Text.normalizeLineEnds cs)
    | .error e => .error (.encoding e)

/-- Changes what stands at a place. -/
def put (d : Disk) (place : List String) (new : Option Tree) : Disk :=
  { d with tree := d.tree.set new place }

/-- Writes a file, whose directory must be there. -/
def writeBytes (d : Disk) (p : Path) (bytes : List UInt8) : Except DiskError Disk := about p do
  let place ← d.place p
  match d.tree.find? place with
  | some (.directory _ _) => .error .isDirectory
  | _ => return d.put place (some (.file bytes d.clock))

/-- Writes a text to a file. -/
def writeText (d : Disk) (p : Path) (text : List Char) : Except DiskError Disk :=
  d.writeBytes p (Text.encode text)

/-- Writes a new file; what is there stays. -/
def createText (d : Disk) (p : Path) (text : List Char) : Except DiskError Disk := about p do
  let place ← d.place p
  match d.tree.find? place with
  | some _ => .error .taken
  | none => return d.put place (some (.file (Text.encode text) d.clock))

/-- Writes a text behind what a file holds; a missing file is made. -/
def appendText (d : Disk) (p : Path) (text : List Char) : Except DiskError Disk := about p do
  let place ← d.place p
  match d.tree.find? place with
  | some (.directory _ _) => .error .isDirectory
  | some (.file old _) =>
    return if text.isEmpty then d else d.put place (some (.file (old ++ Text.encode text) d.clock))
  | none => return d.put place (some (.file (Text.encode text) d.clock))

/-- Makes a directory. -/
def makeDirectory (d : Disk) (p : Path) : Except DiskError Disk := about p do
  let place ← d.place p
  match d.tree.find? place with
  | some _ => .error .taken
  | none => return d.put place (some (.directory d.clock []))

/-- Makes a directory unless it is there. Gives the files afterwards and, if there is no such directory then, why. -/
def ensureDirectory (d : Disk) (p : Path) : Disk × Option DiskError :=
  match d.makeDirectory p with
  | .ok d => (d, none)
  | .error e => (d, if e.cause ≠ .missing && d.hasDirectory p then none else some e)

/-- Makes a directory and those around it, unless they are there, taking back at most `steps` names. What was made
    stays when the rest cannot be made. -/
def makeDirectoriesFrom (d : Disk) : Nat → Path → Disk × Option DiskError
  | 0, p => d.ensureDirectory p
  | steps + 1, p =>
    match d.ensureDirectory p with
    | (d, none) => (d, none)
    | (d, some e) =>
      if e.cause = .missing then
        match makeDirectoriesFrom d steps p.parent with
        | (d, none) => d.ensureDirectory p
        | (d, some e) => (d, some e)
      else (d, some e)

/-- Makes a directory and those around it, unless they are there. -/
def makeDirectories (d : Disk) (p : Path) : Disk × Option DiskError :=
  d.makeDirectoriesFrom p.parts.length p

/-- The files with a directory and those around it. -/
def ensureDirectories (d : Disk) (p : Path) : Except DiskError Disk :=
  match d.makeDirectories p with
  | (d, none) => .ok d
  | (_, some e) => .error e

/-- Removes a file. -/
def remove (d : Disk) (p : Path) : Except DiskError Disk := about p do
  let place ← d.place p
  match d.tree.find? place with
  | some (.directory _ _) => .error .isDirectory
  | some (.file _ _) => return d.put place none
  | none => .error .missing

/-- Removes a file unless it is missing. -/
def removeIfThere (d : Disk) (p : Path) : Except DiskError Disk :=
  match d.remove p with
  | .ok d => .ok d
  | .error e => if e.cause = .missing then .ok d else .error e

/-- The absolute form of a path, without two dots. -/
def resolve (d : Disk) (p : Path) : Path :=
  Path.resolve d.here p

end Disk

end ResponseShapes
