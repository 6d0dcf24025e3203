import ResponseShapes.Text.CaseTable

/-!
# Upper and lower case

The full case mappings: one character may become several, and a capital sigma at the end of a word becomes the final
form of the small one.
-/

namespace ResponseShapes.Text

/-- Whether a code point lies in one of the ranges. -/
def inRanges (ranges : Array (Nat × Nat)) (n : Nat) : Bool :=
  ranges.any fun r => r.1 ≤ n && n ≤ r.2

/-- The counterpart of a code point after a table of runs; itself when it is in none. -/
def throughRuns (runs : Array CaseRun) (n : Nat) : Nat :=
  match runs.find? fun r => r.first ≤ n && n ≤ r.last && (n - r.first) % r.stride == 0 with
  | some r => (Int.ofNat n + r.offset).toNat
  | none => n

/-- The capital form of a character. -/
def upperChar (c : Char) : List Char :=
  if c.toNat < 0x80 then [c.toUpper]
  else
    match upperSequences.find? (·.1 == c.toNat) with
    | some (_, cs) => cs.map Char.ofNat
    | none => [Char.ofNat (throughRuns upperRuns c.toNat)]

/-- Whether the nearest character of a context that is not passed over has case. -/
def nextIsCased (context : List Char) : Bool :=
  match context.find? fun c => !inRanges caseIgnorable c.toNat with
  | some c => inRanges casedLetters c.toNat
  | none => false

/-- The small form of a character between the characters before it, the nearest first, and those after it. -/
def lowerChar (before : List Char) (c : Char) (after : List Char) : List Char :=
  if c.toNat < 0x80 then [c.toLower]
  else if c == '\u03A3' then [if nextIsCased before && !nextIsCased after then '\u03C2' else '\u03C3']
  else if c == '\u0130' then ['i', '\u0307']
  else [Char.ofNat (throughRuns lowerRuns c.toNat)]

/-- The small form of a text that stands behind the characters `before`, the nearest first. -/
def lowerFrom (before : List Char) : List Char → List Char
  | [] => []
  | c :: cs => lowerChar before c cs ++ lowerFrom (c :: before) cs

/-- The text in small letters. -/
def lower (s : String) : String :=
  String.ofList (lowerFrom [] s.toList)

/-- The text with its first character in capital form. -/
def capitalize (s : String) : String :=
  match s.toList with
  | [] => s
  | c :: cs => String.ofList (upperChar c ++ cs)

end ResponseShapes.Text
