import ResponseShapes.Config.Load
import ResponseShapes.Edit
import ResponseShapes.Endpoint.Table
import ResponseShapes.Failure
import ResponseShapes.Log
import ResponseShapes.Project.Disk

/-!
# Passes

A pass reads and writes files and reports on its way. What concerns a single file is a failure, which the pass
reports before it goes on; anything else interrupts the pass, and what it did until then stays.
-/

namespace ResponseShapes

/-- Why a pass cannot go on. -/
inductive Interruption
  | projectMissing (path : String)
  | projectNotDirectory (path : String)
  | sourcesMissing (path : Path)
  | sourcesNotDirectory (path : Path)
  | settings (e : SettingsError)
  | disk (e : DiskError)
  | encoding (e : Text.EncodingError)
  | edits (e : EditError)
  /-- A whole number in a file has too many digits. -/
  | digits (count : Nat)
  deriving DecidableEq, Repr

namespace Interruption

/-- What is said about the interruption. -/
def message : Interruption → String
  | projectMissing path => "Project path not found: " ++ path
  | projectNotDirectory path => "Project path is not a directory: " ++ path
  | sourcesMissing path => "Source path not found: " ++ path.toString
  | sourcesNotDirectory path => "Source path is not a directory: " ++ path.toString
  | settings e => e.message
  | disk e => e.message
  | encoding e => e.message
  | edits e => e.message
  | digits count => (Yaml.Fault.tooManyDigits count).message

/-- The interruption by a text that cannot be read. -/
def ofText : TextError → Interruption
  | .disk e => disk e
  | .encoding e => encoding e

end Interruption

/-- What the steps of a pass tell those behind them: the units whose declarations exist, the table of the endpoints,
    and the files that were written. -/
structure Progress where
  declared : Entries DeclaredUnit
  table : LookupTable
  written : List Path
  deriving Repr

/-- Nothing is known yet. -/
def Progress.empty : Progress :=
  { declared := [], table := LookupTable.empty, written := [] }

/-- The files, the rows reported so far, and what is known so far. -/
structure PassState where
  disk : Disk
  rows : List LogRow
  progress : Progress

/-- A step of a pass. -/
abbrev Pass (α : Type) := ExceptT Interruption (StateM PassState) α

namespace Pass

/-- The files as they are. -/
def disk : Pass Disk := do
  return (← get).disk

/-- What is known so far. -/
def progress : Pass Progress := do
  return (← get).progress

/-- Makes something known. -/
def learn (f : Progress → Progress) : Pass Unit :=
  modify fun s => { s with progress := f s.progress }

/-- Ends the pass. -/
def interrupt {α : Type} (i : Interruption) : Pass α :=
  throw i

/-- Reports rows. -/
def report (rows : List LogRow) : Pass Unit :=
  modify fun s => { s with rows := s.rows ++ rows }

/-- Reports one row. -/
def say (level : LogLevel) (reporter : Reporter) (text : String) : Pass Unit :=
  report [{ level, reporter, text }]

/-- Changes the files; an error interrupts the pass. -/
def change (f : Disk → Except DiskError Disk) : Pass Unit := do
  match f (← disk) with
  | .ok d => modify fun s => { s with disk := d }
  | .error e => interrupt (.disk e)

/-- Runs a step and, whatever comes of it, another one behind it. -/
def andFinally {α : Type} (step : Pass α) (last : Pass Unit) : Pass α := do
  let result ← tryCatch (Except.ok <$> step) fun i => pure (Except.error i)
  last
  match result with
  | .ok a => return a
  | .error i => interrupt i

/-- The text of a file; an error interrupts the pass. -/
def readText (p : Path) : Pass (List Char) := do
  match (← disk).readText p with
  | .ok cs => return cs
  | .error e => interrupt (.ofText e)

/-- The text of a source. -/
def readSource (p : Path) : Pass (Except Failure String) := do
  match (← disk).readText p with
  | .ok cs => return .ok (String.ofList cs)
  | .error e => return .error (.source p ("unreadable source: " ++ e.message))

/-- Makes a directory and those around it; an error interrupts the pass, and what was made until then stays. -/
def makeDirectories (p : Path) : Pass Unit := do
  let (d, failure) := (← disk).makeDirectories p
  modify fun s => { s with disk := d }
  match failure with
  | none => return ()
  | some e => interrupt (.disk e)

/-- The files after writing a text with the directories around it, and why it could not be written. -/
def written (p : Path) (text : String) (d : Disk) : Disk × Option DiskError :=
  match d.makeDirectories p.parent with
  | (d, none) =>
    match d.writeText p text.toList with
    | .ok d => (d, none)
    | .error e => (d, some e)
  | (d, some e) => (d, some e)

/-- Writes an output with the directories around it, unless the file holds the text already, and tells whether it
    wrote. What cannot be read as a text interrupts the pass. -/
def writeOutput (p : Path) (text : String) : Pass (Except Failure Bool) := do
  let d ← disk
  let old := if d.has p then some (d.readText p) else none
  match old with
  | some (.error (.encoding e)) => interrupt (.encoding e)
  | some (.error (.disk e)) => return .error (.output p e.message)
  | _ =>
    if old.any fun r => r.toOption = some text.toList then return .ok false
    else
      let (d, failure) := written p text d
      modify fun s => { s with disk := d }
      match failure with
      | none => return .ok true
      | some e => return .error (.output p e.message)

end Pass

end ResponseShapes
