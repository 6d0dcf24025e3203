import ResponseShapes.Marker.Rewrite
import ResponseShapes.Pass.Sources

/-!
# Rewriting sources

The markers in the endpoint sources below a directory are replaced by documentation. A trial run reports what would
change and writes nothing.
-/

namespace ResponseShapes

/-- Rewrites the text of a source; edits that exclude each other interrupt the pass. -/
def rewriteText (s : Settings) (t : LookupTable) (p : Path) (text : String) : Pass Rewritten := do
  match Rewritten.ofText s t (some p) text with
  | .error e => Pass.interrupt (.edits e)
  | .ok (r, rows) =>
    Pass.report rows
    return r

/-- Rewrites a source, and tells whether it changes. -/
def rewriteSource (s : Settings) (t : LookupTable) (trial : Bool) (p : Path) : Pass (Except Failure Bool) := do
  match ← Pass.readSource p with
  | .error f => return .error f
  | .ok text =>
    let r ← rewriteText s t p text
    let decorators := s!" ({r.count} decorators)"
    if !r.changed text then return .ok false
    else if trial then
      Pass.say .info .rewriting ("Would rewrite " ++ p.toString ++ decorators)
      return .ok true
    else
      match ← Pass.writeOutput p r.text with
      | .error f => return .error f
      | .ok _ =>
        Pass.say .info .rewriting ("Rewrote " ++ p.toString ++ decorators)
        return .ok true

/-- Adds a source to those that changed, after rewriting it. -/
def addRewritten (s : Settings) (t : LookupTable) (trial : Bool) (changed : List Path) (p : Path) :
    Pass (List Path) := do
  match ← rewriteSource s t trial p with
  | .error f =>
    Pass.say .error .rewriting ("Skipping endpoint unit: " ++ f.message)
    return changed
  | .ok true => return changed ++ [p]
  | .ok false => return changed

/-- Rewrites the sources below a directory by the table, and gives those that change. -/
def rewriteSources (s : Settings) (t : LookupTable) (trial : Bool) (root : Path) (pattern : String) :
    Pass (List Path) := do
  let paths ← listSources root pattern s.excludePaths
  paths.foldlM (addRewritten s t trial) []

/-- Rewrites the sources below a directory and reports how many change. -/
def rewriteEndpoints (s : Settings) (t : LookupTable) (trial : Bool) (root : Path) (pattern : String) :
    Pass (List Path) := do
  let changed ← rewriteSources s t trial root pattern
  Pass.say .info .pipeline
    ((if trial then "Would rewrite " else "Rewrote ") ++ s!"{changed.length} endpoint sources")
  return changed

end ResponseShapes
