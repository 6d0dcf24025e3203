import ResponseShapes.Declaration.Module
import ResponseShapes.Shape.Inference

/-!
# Analysing units

A unit is the first class of a source whose name has the suffix of units. Its members are its methods that callers
can use by name, each with the shape of what it returns; of several methods with one name the first one counts.
-/

namespace ResponseShapes

open Syntax

namespace UnitAnalysis

/-- The class of a source that is a unit. -/
def unitClass? (conventions : Conventions) (s : Source) : Option ClassDeclaration :=
  s.classes.find? fun c => Text.endsWith c.name conventions.unitSuffix

/-- The row about a method that has no plain name. -/
def skippedRow (unit : String) (m : Method) : LogRow :=
  { level := .debug, reporter := .units, text := s!"Skipping {unit}.{m.name}: not an identifier name" }

/-- The methods that are members: those that callers use by name, the first one of each name. -/
def memberMethods (seen : List String) : List Method → List Method
  | [] => []
  | m :: ms =>
    if m.isAnalyzable && !seen.contains m.name then m :: memberMethods (m.name :: seen) ms
    else memberMethods seen ms

/-- The member that a method is. -/
def member (naming : Naming) (s : Source) (unit : String) (m : Method) : Member :=
  { name := m.name, shape := Shape.ofMethod s m, declaration := naming.declaration unit m.name }

/-- The analysis of the unit in a source, if there is one, with the rows that report on it. -/
def ofSource? (conventions : Conventions) (s : Source) (path : Path) : Option (UnitAnalysis × List LogRow) :=
  (unitClass? conventions s).map fun c =>
    let naming : Naming := { responseSuffix := conventions.responseSuffix }
    ({ unit := c.name, path, members := (memberMethods [] c.methods).map (member naming s c.name) },
     (c.methods.filter fun m => !m.hasPlainName).map (skippedRow c.name))

end UnitAnalysis

end ResponseShapes
