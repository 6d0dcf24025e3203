import ResponseShapes.Failure
import ResponseShapes.Marker.Imports
import ResponseShapes.Syntax.Parse

/-!
# Rewriting markers

A source in which handlers are marked becomes one in which they are documented. What no edit touches stays as it
is, and a source without markers, or one that cannot be read, stays whole.
-/

namespace ResponseShapes

open Syntax

/-- A source after rewriting. -/
structure Rewritten where
  text : String
  /-- The number of handlers that were documented. -/
  count : Nat
  /-- The handlers whose declarations are not known. -/
  unresolved : List String
  deriving DecidableEq, Repr

namespace Rewritten

/-- A text as it was. -/
def unchanged (text : String) : Rewritten :=
  { text, count := 0, unresolved := [] }

/-- Whether the text differs from the one before. -/
def changed (r : Rewritten) (before : String) : Bool :=
  r.text != before

/-- The warnings about handlers whose declarations are not known. -/
def rows (unresolved : List String) : List LogRow :=
  unresolved.map fun handler =>
    { level := .warning, reporter := .rewriting
      text := s!"Cannot resolve a response declaration for {handler}; marker left in place" }

/-- All edits of a plan and of the imports that it needs; none when it neither documents nor removes anything. -/
def edits (c : Settings) (path : Option Path) (s : Source) (p : Plan) : List (Edit Char) :=
  if p.rewritten = 0 && p.removed = 0 then [] else p.edits ++ importEdits c s (p.needs c path s.imports)

/-- The number of bytes of a text in UTF-8. -/
def byteCount (cs : List Char) : Nat :=
  (String.ofList cs).utf8ByteSize

/-- Rewrites a source by the table. -/
def ofSource (c : Settings) (t : LookupTable) (path : Option Path) (s : Source) : Except EditError Rewritten :=
  let p := Plan.ofSource c t s
  match Edit.apply s.text (edits c path s p) with
  | .ok text => .ok { text := String.ofList text, count := p.rewritten, unresolved := p.unresolved }
  | .error (.overlap position) => .error (.overlap (byteCount (s.text.take position)))

/-- The row about a source that cannot be read. -/
def malformedRow (path : Option Path) : LogRow :=
  { level := .error, reporter := .rewriting
    text := (Failure.source (path.getD (Path.ofString "<source>")) "syntax errors; left unchanged").message }

/-- Whether the name of a marker stands anywhere in a text. -/
def mentionsMarker (conventions : Conventions) (text : String) : Bool :=
  conventions.markers.any (Text.contains text)

/-- Rewrites a text by the table, with the rows that report on it. -/
def ofText (c : Settings) (t : LookupTable) (path : Option Path) (text : String) :
    Except EditError (Rewritten × List LogRow) :=
  if !mentionsMarker c.conventions text then .ok (unchanged text, [])
  else
    match Source.ofText? text with
    | none => .ok (unchanged text, [malformedRow path])
    | some s => do
      let r ← ofSource c t path s
      return (r, rows r.unresolved)

end Rewritten

end ResponseShapes
