/-!
# Edits

An edit replaces one stretch of a list. Edits are made from the end to the start, so that none moves the stretch of
another; two edits whose stretches overlap are an error.
-/

namespace ResponseShapes

/-- Puts `replacement` in the place of the elements from `start` up to `stop`. -/
structure Edit (α : Type) where
  start : Nat
  stop : Nat
  replacement : List α
  deriving DecidableEq, Repr

/-- Why edits cannot be made. -/
inductive EditError
  /-- The edit that starts at the position reaches into a later one. -/
  | overlap (position : Nat)
  deriving DecidableEq, Repr

/-- What is said about the error; positions count bytes. -/
def EditError.message : EditError → String
  | overlap position => s!"Overlapping edits at byte {position}"

namespace Edit

variable {α : Type}

/-- Whether `a` stands behind `b` or in the same place, by start and then by stop. -/
def notBefore (a b : Edit α) : Bool :=
  b.start < a.start || (a.start = b.start && b.stop ≤ a.stop)

/-- The edits in the order in which they are made: the last one first, and in the given order within one place. -/
def inOrder (edits : List (Edit α)) : List (Edit α) :=
  edits.mergeSort notBefore

/-- Makes one edit. -/
def splice (xs : List α) (e : Edit α) : List α :=
  xs.take e.start ++ e.replacement ++ xs.drop e.stop

/-- Makes edits after each other, none of which may reach behind the start of the one before; the first one may not
    reach behind `bound`. -/
def applyFrom (bound : Nat) (xs : List α) : List (Edit α) → Except EditError (List α)
  | [] => .ok xs
  | e :: es => if bound < e.stop then .error (.overlap e.start) else applyFrom e.start (splice xs e) es

/-- Makes all edits. -/
def apply (xs : List α) (edits : List (Edit α)) : Except EditError (List α) :=
  applyFrom (xs.length + 1) xs (inOrder edits)

end Edit

end ResponseShapes
