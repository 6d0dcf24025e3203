import ResponseShapes.CommandLine.Reply
import ResponseShapes.Project.Changes

/-!
# The program

The program reads the files of the project, replies to its arguments, and makes the changes that the reply calls for.
A build makes its changes while it holds the lock file; if another build took that file in the meantime, it starts
again.
-/

namespace ResponseShapes

/-- The time of a file in nanoseconds. -/
def fileInstant (m : IO.FS.Metadata) : Int :=
  m.modified.sec * 1000000000 + m.modified.nsec.toNat

/-- The time that a new file gets. -/
def currentInstant : IO Int := do
  let (_, path) ← IO.FS.createTempFile
  let time := fileInstant (← path.metadata)
  IO.FS.removeFile path
  return time

/-- The number of this process; zero if the system does not tell it. -/
def processNumber : IO Nat := do
  try
    let text ← IO.FS.readFile "/proc/self/stat"
    return Text.ofDigits ((text.toList.takeWhile Char.isDigit).map Text.asciiValue)
  catch _ => return 0

/-- What stands at a path. Directories that hold no sources are left out. -/
partial def readTree? (path : String) : IO (Option Tree) := do
  let place := (← IO.currentDir) / path
  try
    let m ← place.metadata
    match m.type with
    | .file => return some (.file (← IO.FS.readBinFile path).toList (fileInstant m))
    | .dir =>
      let mut children : Entries Tree := []
      for e in ← place.readDir do
        if !excludedNames.contains e.fileName then
          if let some t ← readTree? (path ++ "/" ++ e.fileName) then
            children := children.put e.fileName t
      return some (.directory (fileInstant m) children)
    | _ => return none
  catch _ => return none

/-- The files with what stands at a path. -/
def withPath (p : Path) (d : Disk) : IO Disk := do
  match ← readTree? p.toString with
  | none => return d
  | some t =>
    match d.ensureDirectories p.parent with
    | .ok d => return d.put p.parts (some t)
    | .error _ => return d

/-- The files that the project at a path is about: those below it and the outputs that its settings name. -/
def readDisk (path : String) : IO Disk := do
  let clock ← currentInstant
  let here := Path.ofString (← IO.currentDir).toString
  let empty : Disk := { tree := .directory clock [], here, clock }
  let root := empty.resolve (Path.ofString path)
  let d ← withPath root ((empty.ensureDirectories here).toOption.getD empty)
  let settings := (projectSettings path).run { disk := d, rows := [], progress := Progress.empty }
  match settings.1 with
  | .ok s =>
    let output := d.resolve s.outputRoot
    if d.has output then return d else withPath output d
  | .error _ => return d

/-- Makes a change. -/
def makeChange (c : Change) : IO Unit := do
  let text (place : List String) := "/" ++ placePath place
  match c with
  | .remove place => IO.FS.removeFile (text place)
  | .write place content =>
    IO.FS.createDirAll (text place.dropLast)
    IO.FS.writeBinFile (text place) (ByteArray.mk content.toArray)

/-- Does something while holding a lock file, and tells whether the file could be created. -/
def whileLocked (path : String) (owner : Nat) (action : IO Unit) : IO Bool := do
  try
    let handle ← IO.FS.Handle.mk path .writeNew
    handle.putStr (toString owner)
    handle.flush
  catch _ => return false
  try action finally IO.FS.removeFile path
  return true

/-- Makes changes, those of a build under the lock of its project, and tells whether that could be done. -/
def commit (owner : Nat) (d : Disk) (i : Invocation) (changes : List Change) : IO Bool := do
  let lock := (d.resolve (Path.ofString i.path)).child lockFile
  let (released, others) := changes.partition (· == .remove lock.parts)
  released.forM makeChange
  if i.command = .build && !others.isEmpty then whileLocked lock.toString owner (others.forM makeChange)
  else
    others.forM makeChange
    return true

/-- Prints a reply and gives the code with which the program ends. -/
def finish : Except Interruption Reply → IO UInt32
  | .ok r => do
    IO.print r.out
    IO.eprint r.err
    return UInt32.ofNat r.code
  | .error e => do
    IO.eprintln (programName ++ ": " ++ e.message)
    return 1

/-- Replies to the arguments, starting again at most `retries` times. -/
def runProgram (args : List String) : Nat → IO UInt32
  | 0 => finish (.ok { code := 1, out := "", err := "Another generation is in progress\n" })
  | retries + 1 => do
    match Invocation.ofArguments args with
    | .error r => finish (.ok (Reply.ofRefusal r))
    | .ok i =>
      let owner ← processNumber
      let d ← readDisk i.path
      let (reply, state) := Reply.ofArguments (Lock.seconds d.clock) owner args d
      if ← commit owner d i (d.tree.changes state.disk.tree) then finish reply else runProgram args retries

end ResponseShapes

/-- The program. -/
def main (args : List String) : IO UInt32 :=
  ResponseShapes.runProgram args 3
