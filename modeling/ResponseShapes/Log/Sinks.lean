import ResponseShapes.Log
import ResponseShapes.Project.Disk

/-!
# Where reports go

Reports are shown and may be kept in a file as well, behind what it holds. A file gets the time and the full name of
who reports.
-/

namespace ResponseShapes

/-- A report under a name of any kind; the empty name is that of the program itself. -/
structure LogMessage where
  level : LogLevel
  reporter : String
  text : String
  deriving DecidableEq, Repr

/-- Where reports go. -/
structure LogSinks where
  verbose : Bool
  file : Option Path
  deriving DecidableEq, Repr

namespace LogSinks

/-- The number of places that reports go to. -/
def count (s : LogSinks) : Nat :=
  if s.file.isSome then 2 else 1

/-- The name of a reporter with that of the program in front. -/
def fullName (reporter : String) : String :=
  if reporter.isEmpty then programName else programName ++ "." ++ reporter

/-- A report as it is kept. -/
def keptLine (time : String) (m : LogMessage) : String :=
  time ++ " " ++ m.level.word ++ " " ++ fullName m.reporter ++ ": " ++ m.text ++ "\n"

/-- Writes texts behind what the file holds. -/
def keep (s : LogSinks) (d : Disk) (text : String) : Except DiskError Disk :=
  match s.file with
  | none => .ok d
  | some p => d.appendText (d.resolve p) text.toList

/-- Makes the file ready; a missing one is made. -/
def prepare (s : LogSinks) (d : Disk) : Except DiskError Disk :=
  s.keep d ""

/-- Reports messages at a time: the files after that and what is shown. -/
def log (s : LogSinks) (time : String) (messages : List LogMessage) (d : Disk) : Except DiskError (Disk × String) := do
  let chosen := messages.filter fun m => m.level.isShown s.verbose
  let d ← s.keep d (String.join (chosen.map (keptLine time)))
  return (d, String.join (chosen.map fun m => m.level.line m.text))

end LogSinks

end ResponseShapes
