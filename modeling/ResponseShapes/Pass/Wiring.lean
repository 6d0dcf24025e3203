import ResponseShapes.Endpoint.Scan
import ResponseShapes.Endpoint.Wiring
import ResponseShapes.Pass.Sources
import ResponseShapes.Syntax.Parse

/-!
# Wiring endpoints

The endpoints below a directory are paired with the units whose declarations exist, and the table of them is written
as a module. Units that no earlier step made known are read back from their modules.
-/

namespace ResponseShapes

open Syntax

variable [Recovery]

/-- The name of the file that holds the wiring. -/
def wiringFile : String := "index.ts"

/-- Adds the unit that a module declares. -/
def addDeclaredUnit (s : Settings) (units : Entries DeclaredUnit) (p : Path) : Pass (Entries DeclaredUnit) := do
  match ← Pass.readSource p with
  | .error f =>
    Pass.say .error .endpoints ("Skipping declarations module: " ++ f.message)
    return units
  | .ok text =>
    match readDeclaredUnit? s.conventions.responseSuffix (Source.ofText text) p with
    | none =>
      Pass.say .warning .endpoints ("No lookup object found in " ++ p.toString)
      return units
    | some d => return units.put d.unit d

/-- The units whose modules lie in a directory. -/
def loadDeclaredUnits (s : Settings) (directory : Path) : Pass (Entries DeclaredUnit) := do
  let d ← Pass.disk
  if d.hasDirectory directory then (moduleEntries d directory).foldlM (addDeclaredUnit s) []
  else
    Pass.say .warning .endpoints ("Declarations directory " ++ directory.toString ++ " does not exist")
    return []

/-- Adds the endpoints in a source. -/
def addEndpoints (s : Settings) (t : LookupTable) (p : Path) : Pass LookupTable := do
  match ← Pass.readSource p with
  | .error f =>
    Pass.say .error .endpoints ("Skipping endpoint unit: " ++ f.message)
    return t
  | .ok text =>
    let (t, rows) := scanSource s.conventions (Source.ofText text) p t
    Pass.report rows
    return t

/-- The table of the endpoints below a directory. -/
def scanEndpoints (s : Settings) (root : Path) (pattern : String) (declared : Entries DeclaredUnit) :
    Pass LookupTable := do
  let paths ← listSources root pattern s.excludePaths
  paths.foldlM (addEndpoints s) { declared, endpoints := [] }

/-- The units that are known; if there are none, those whose modules lie in a directory become known. -/
def knownUnits (s : Settings) (declarations : Path) : Pass (Entries DeclaredUnit) := do
  let known := (← Pass.progress).declared
  if known.isEmpty then
    let declared ← loadDeclaredUnits s declarations
    Pass.learn fun k => { k with declared }
    return declared
  else return known

/-- Writes the wiring of the endpoints below a directory, and gives the number of endpoints that have handlers. -/
def generateWiring (s : Settings) (root : Path) (pattern : String) (output declarations : Path) : Pass Nat := do
  let declared ← knownUnits s declarations
  let table ← scanEndpoints s root pattern declared
  Pass.learn fun k => { k with table }
  let target := output.child wiringFile
  let text := (Wiring.ofTable (Path.specifier output declarations) table).text s.documentation
  match ← Pass.writeOutput target text with
  | .error f =>
    Pass.say .error .pipeline f.message
    return 0
  | .ok _ =>
    Pass.learn fun k => { k with written := k.written ++ [target] }
    Pass.say .info .pipeline (s!"Wired {table.wired} endpoint units into " ++ target.toString)
    return table.wired

end ResponseShapes
