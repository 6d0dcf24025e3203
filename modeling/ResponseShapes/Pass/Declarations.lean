import ResponseShapes.Declaration.Analysis
import ResponseShapes.Pass.Sources
import ResponseShapes.Syntax.Parse

/-!
# Generating declarations

Each unit below a directory gets a module with its declarations. A source that cannot be read and a unit that cannot
be written are reported and left out; modules of units that no longer exist are removed.
-/

namespace ResponseShapes

open Syntax

variable [Recovery]

/-- The units found so far, each with its source, and those of them that were written. -/
structure FoundUnits where
  seen : Entries Path
  declared : List DeclaredUnit
  deriving Repr

/-- The unit whose module was written. -/
def DeclaredUnit.ofModule (a : UnitAnalysis) (m : DeclarationModule) (target : Path) : DeclaredUnit :=
  { unit := a.unit, lookup := m.lookup, module := target
    members := Entries.ofList (a.members.map fun member => (member.name, member.declaration)) }

/-- Writes the module of a unit into a directory. -/
def writeModule (s : Settings) (output : Path) (a : UnitAnalysis) : Pass (Option DeclaredUnit) := do
  match DeclarationModule.of? { responseSuffix := s.conventions.responseSuffix } s.documentation a.unit a.members with
  | none =>
    Pass.say .warning .units (a.unit ++ " has no analyzable members; no module written")
    return none
  | some m =>
    Pass.report (m.collisions.map (·.row a.unit))
    let target := output.child m.fileName
    match ← Pass.writeOutput target m.text with
    | .error f =>
      Pass.say .error .units f.message
      return none
    | .ok changed =>
      Pass.say .info .units
        ((if changed then "Wrote " else "Unchanged ") ++ target.toString ++ s!" ({a.members.length} members)")
      return some (DeclaredUnit.ofModule a m target)

/-- Adds the unit in a source; of several units with one name the first one counts. -/
def addUnit (s : Settings) (output : Path) (found : FoundUnits) (p : Path) : Pass FoundUnits := do
  match ← Pass.readSource p with
  | .error f =>
    Pass.say .error .units ("Skipping unit: " ++ f.message)
    return found
  | .ok text =>
    match UnitAnalysis.ofSource? s.conventions (Source.ofText text) p with
    | none =>
      Pass.say .debug .units ("No " ++ s.conventions.unitSuffix ++ " class found in " ++ p.toString)
      return found
    | some (a, rows) =>
      Pass.report rows
      match Entries.get? a.unit found.seen with
      | some first =>
        Pass.say .warning .units
          (a.unit ++ " is declared in both " ++ first.toString ++ " and " ++ p.toString ++ "; keeping the first")
        return found
      | none =>
        let written ← writeModule s output a
        return { seen := found.seen.put a.unit p, declared := found.declared ++ written.toList }

/-- Removes a module. -/
def removeModule (p : Path) : Pass Unit := do
  match (← Pass.disk).remove p with
  | .error e => Pass.say .error .units ("Failed to remove stale module " ++ p.toString ++ ": " ++ e.message)
  | .ok d =>
    Pass.change fun _ => .ok d
    Pass.say .info .units ("Removed stale module " ++ p.toString)

/-- Removes the modules in a directory whose names are not among the given ones. -/
def removeStaleModules (output : Path) (keep : List String) : Pass Unit := do
  let d ← Pass.disk
  if d.hasDirectory output then
    ((moduleEntries d output).filter fun p => !keep.contains p.name).forM removeModule

/-- Writes the modules of the units below a directory, and gives those that were written. -/
def scanUnits (s : Settings) (root : Path) (pattern : String) (output : Path) : Pass (List DeclaredUnit) := do
  let paths ← listSources root pattern s.excludePaths
  let found ← paths.foldlM (addUnit s output) { seen := [], declared := [] }
  if s.clean then removeStaleModules output (found.declared.map (·.module.name))
  return found.declared

/-- Writes the modules of the units below a directory and makes them known; gives their number. -/
def generateDeclarations (s : Settings) (root : Path) (pattern : String) (output : Path) : Pass Nat := do
  let units ← scanUnits s root pattern output
  Pass.learn fun k =>
    { k with
      declared := k.declared.putAll (units.map fun u => (u.unit, u))
      written := k.written ++ units.map (·.module) }
  Pass.say .info .pipeline (s!"Generated {units.length} declaration modules in " ++ output.toString)
  return units.length

end ResponseShapes
