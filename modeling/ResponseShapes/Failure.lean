import ResponseShapes.Project.Path

/-!
# Failures

What may go wrong with a single member, source, output or endpoint. A failure is reported and the pass goes on.
-/

namespace ResponseShapes

/-- A failure that does not end a pass. -/
inductive Failure
  /-- The shape of a member cannot be found. -/
  | analysis (unit member reason : String)
  /-- A source cannot be read. -/
  | source (path : Path) (reason : String)
  /-- An output cannot be written. -/
  | output (path : Path) (reason : String)
  /-- An endpoint cannot be paired with the unit that it belongs to. -/
  | pairing (endpoint : String) (unit : Option String) (reason : String)
  deriving DecidableEq, Repr

namespace Failure

/-- The reason alone. -/
def reason : Failure → String
  | analysis _ _ r => r
  | source _ r => r
  | output _ r => r
  | pairing _ _ r => r

/-- What is reported. -/
def message : Failure → String
  | analysis unit member r => unit ++ "." ++ member ++ ": " ++ r
  | source path r => path.toString ++ ": " ++ r
  | output path r => "Failed to write " ++ path.toString ++ ": " ++ r
  | pairing endpoint _ r => endpoint ++ ": " ++ r

end Failure

end ResponseShapes
