import ResponseShapes.Text.Case
import ResponseShapes.Text.Hex
import ResponseShapes.Text.PrintedTable

/-!
# Quoted values in messages

A text in a message stands between apostrophes, or between double quotes if it holds an apostrophe and no double
quote. What has no printed form is written by its number.
-/

namespace ResponseShapes.Text

/-- Whether a character has a printed form. -/
def isPrinted (c : Char) : Bool :=
  !inRanges unprintable c.toNat

/-- One character between the given quotes. -/
def quotedChar (quote c : Char) : List Char :=
  if c = quote || c = '\\' then ['\\', c]
  else if c = '\n' then ['\\', 'n']
  else if c = '\r' then ['\\', 'r']
  else if c = '\t' then ['\\', 't']
  else if isPrinted c then [c]
  else if c.toNat < 0x100 then '\\' :: 'x' :: hex 2 c.toNat
  else if c.toNat < 0x10000 then '\\' :: 'u' :: hex 4 c.toNat
  else '\\' :: 'U' :: hex 8 c.toNat

/-- The text as a message shows it. -/
def quoted (s : String) : String :=
  let cs := s.toList
  let quote := if cs.contains '\x27' && !cs.contains '\x22' then '\x22' else '\x27'
  String.ofList (quote :: cs.flatMap (quotedChar quote) ++ [quote])

end ResponseShapes.Text
