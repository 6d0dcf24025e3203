import ResponseShapes.Json.Reader
import ResponseShapes.Pass.Basic
import ResponseShapes.Project.Instant
import ResponseShapes.Project.Sha256
import ResponseShapes.Text.JsonString

/-!
# Signatures of builds

A build leaves a signature beside its outputs, which holds a fingerprint of the sources that it read. A later build
has nothing to do if the signature is there, no source is newer than it, and the sources still have that fingerprint.
-/

namespace ResponseShapes

/-- The name of the file that holds a signature. -/
def signatureFile : String := ".signature"

namespace Signature

/-- The line of a fingerprint for what stands at a path: its path, its size and its time. -/
def sourceLine (p : Path) (t : Tree) : List Char :=
  s!"{p.toString}\x00{t.size}\x00{t.time}\n".toList

/-- The fingerprint of sources; their order does not matter, and those that are missing do not count. -/
def fingerprint (d : Disk) (sources : List Path) : String :=
  Sha256.digest <| Text.encode <| (Path.sort sources).flatMap fun p =>
    match d.entry p with
    | .ok t => sourceLine p t
    | .error _ => []

/-- A signature as it is written. -/
def text (time : Int) (sources : Nat) (fingerprint : String) : String :=
  "\x7b\n  \"fingerprint\": " ++ Text.jsonString fingerprint ++ ",\n  \"generated_at\": " ++
    Text.jsonString (instantText time) ++ ",\n  \"sources\": " ++ toString sources ++ ",\n  \"version\": 1\n\x7d"

/-- Leaves a signature in a directory. -/
def record (directory : Path) (sources : List Path) : Pass Unit := do
  let d ← Pass.disk
  let text := text d.clock sources.length (fingerprint d sources)
  Pass.makeDirectories directory
  Pass.change (·.writeText (directory.child signatureFile) text.toList)

/-- Takes the signature out of a directory. -/
def clear (directory : Path) : Pass Unit :=
  Pass.change (·.removeIfThere (directory.child signatureFile))

/-- Whether a value is a signature of the version that is written here. -/
def isCurrent (v : Json) : Bool :=
  (v.get? "version").any Json.isOne

/-- The signature in a directory; a file that cannot be read as one is none. -/
def load? (directory : Path) : Pass (Option Json) := do
  match (← Pass.disk).readText (directory.child signatureFile) with
  | .error (.disk _) => return none
  | .error (.encoding e) => Pass.interrupt (.encoding e)
  | .ok cs =>
    match Json.ofText cs with
    | .ok v => return if isCurrent v then some v else none
    | .error .malformed => return none
    | .error (.digits count) => Pass.interrupt (.digits count)

/-- Whether one of the sources is missing or newer than a time; the first newer one is reported. -/
def anyChangedSince (time : Int) : List Path → Pass Bool
  | [] => return false
  | p :: ps => do
    match (← Pass.disk).entry p with
    | .error _ => return true
    | .ok t =>
      if time < t.time then
        Pass.say .debug .build (p.toString ++ " changed since the last generation")
        return true
      else anyChangedSince time ps

/-- Whether the signature in a directory does not stand for the sources as they are. -/
def isStale (directory : Path) (sources : List Path) : Pass Bool := do
  match ← load? directory with
  | none => return true
  | some v =>
    match (← Pass.disk).entry (directory.child signatureFile) with
    | .error _ => return true
    | .ok t =>
      if ← anyChangedSince t.time sources then return true
      else return !(v.get? "fingerprint").any (Json.isText (fingerprint (← Pass.disk) sources))

end Signature

end ResponseShapes
