import ResponseShapes.Pass.Basic

/-!
# Locks

A lock is a file that only one of its holders can create. A holder that has vanished leaves its file behind, so a file
that is older than a lock allows is taken away.
-/

namespace ResponseShapes

/-- The name of the file that locks a project. -/
def lockFile : String := ".shapegen.lock"

/-- A lock as one process sees it. -/
structure Lock where
  path : Path
  /-- The age in seconds beyond which the file belongs to nobody. -/
  staleAfter : Binary64
  /-- The number of the process, which is written into the file. -/
  owner : Nat
  /-- Whether the process created the file and has not released it since. -/
  held : Bool
  deriving DecidableEq, Repr

namespace Lock

/-- The lock of a project with the given settings. -/
def ofSettings (owner : Nat) (s : Settings) : Lock :=
  { path := s.root.child lockFile, staleAfter := s.lockTimeout, owner, held := false }

/-- Nanoseconds as seconds: the whole seconds and the nanoseconds beyond them, each rounded. -/
def seconds (time : Int) : Binary64 :=
  let whole := time.fdiv 1000000000
  let rest := time.fmod 1000000000
  (Binary64.ofQuotient (whole < 0) whole.natAbs 1).add
    ((Binary64.ofQuotient false 1 1000000000).mul (Binary64.ofQuotient false rest.toNat 1))

/-- The age of what was written at a time. -/
def age (now : Binary64) (time : Int) : Binary64 :=
  now.add (seconds time).negate

/-- Tries to create the file, and tells whether it was missing. -/
def create (l : Lock) : Pass Bool := do
  Pass.makeDirectories l.path.parent
  match (← Pass.disk).createText l.path (toString l.owner).toList with
  | .ok d =>
    Pass.change fun _ => .ok d
    return true
  | .error e => if e.cause = .taken then return false else Pass.interrupt (.disk e)

/-- Whether the file is missing or older than the lock allows. -/
def isStale (now : Binary64) (l : Lock) : Pass Bool := do
  match (← Pass.disk).entry l.path with
  | .ok t => return l.staleAfter.isLess (age now t.time)
  | .error e => if e.cause = .missing then return true else Pass.interrupt (.disk e)

/-- Tries to become the holder. A file that is too old is taken away first. -/
def acquire (now : Binary64) (l : Lock) : Pass Lock := do
  if l.held then return l
  else if ← l.create then return { l with held := true }
  else if ← l.isStale now then
    Pass.say .warning .build ("Removing stale lock " ++ l.path.toString)
    Pass.change (·.removeIfThere l.path)
    return { l with held := ← l.create }
  else return l

/-- Takes the file away if the process holds the lock. -/
def release (l : Lock) : Pass Unit :=
  if l.held then Pass.change (·.removeIfThere l.path) else pure ()

/-- The lock once it is released. -/
def released (l : Lock) : Lock :=
  { l with held := false }

end Lock

end ResponseShapes
