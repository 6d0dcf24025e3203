import ResponseShapes.Project.Glob

/-!
# Wildcards

A wildcard pattern describes a whole text: a star stands for any characters, a question mark for one, and brackets
for one out of a set. In brackets a hyphen between two characters makes a range; a range whose ends are in the wrong
order is empty and disappears.
-/

namespace ResponseShapes

/-- A set of characters given by ranges. -/
structure CharSet where
  negated : Bool
  ranges : List (Char × Char)
  deriving DecidableEq, Repr

namespace CharSet

/-- Whether a character is in the set. -/
def has (s : CharSet) (c : Char) : Bool :=
  (s.ranges.any fun r => r.1 ≤ c && c ≤ r.2) != s.negated

/-! ### Chunks

The text between the brackets is cut at the hyphens that make ranges, so that a range goes from the last character
of a chunk to the first one of the next. -/

/-- Cuts off a chunk at the first hyphen that has `least` characters before it; `opened` holds the characters since
    the last cut, the latest first. -/
def chunksFrom (least : Nat) (opened : List Char) : List Char → List (List Char)
  | [] => [opened.reverse]
  | c :: cs =>
    if c = '-' && least ≤ opened.length then opened.reverse :: chunksFrom 2 [] cs
    else chunksFrom least (c :: opened) cs

/-- A hyphen at the end makes no range. -/
def closeChunks : List (List Char) → List (List Char)
  | [] => []
  | [c, []] => [c ++ ['-']]
  | c :: cs => c :: closeChunks cs

/-- The chunks of a text. -/
def chunks (cs : List Char) : List (List Char) :=
  closeChunks (chunksFrom (if cs.head? = some '!' then 2 else 1) [] cs)

/-- Puts a chunk in front of others; an empty range between it and the next one disappears with its ends. -/
def mergeChunk (chunk : List Char) : List (List Char) → List (List Char)
  | [] => [chunk]
  | next :: rest =>
    match chunk.getLast?, next with
    | some a, b :: ds => if b < a then (chunk.dropLast ++ ds) :: rest else chunk :: next :: rest
    | _, _ => chunk :: next :: rest

/-- The chunks between which no range is empty. -/
def merged (cs : List Char) : List (List Char) :=
  (chunks cs).foldr mergeChunk []

/-- The ranges of chunks. A hyphen that has no character of its own before it stands for itself. -/
def rangesOf : List (List Char) → List (Char × Char)
  | [] => []
  | [chunk] => chunk.map fun c => (c, c)
  | chunk :: next :: rest =>
    let singles := chunk.dropLast.map fun c => (c, c)
    match chunk.getLast?, next with
    | some a, b :: ds =>
      singles ++ (a, b) :: rangesOf (ds :: rest)
    | _, _ => singles ++ ('-', '-') :: rangesOf (next :: rest)
termination_by chunks => chunks.length

/-- The set that stands for the text between brackets; none for a text without characters. An exclamation mark at the
    start takes the complement. -/
def ofChars? (cs : List Char) : Option CharSet :=
  match merged cs with
  | ('!' :: chunk) :: rest => some { negated := true, ranges := rangesOf (chunk :: rest) }
  | chunks => if chunks.all List.isEmpty then none else some { negated := false, ranges := rangesOf chunks }

end CharSet

/-- A part of a wildcard pattern. -/
inductive WildcardToken
  | run
  | one
  | literal (c : Char)
  | set (s : CharSet)
  /-- Brackets whose set is empty. -/
  | never
  deriving DecidableEq, Repr

namespace WildcardToken

/-- The text between brackets whose opening one was just passed, and what follows the closing one. A closing bracket
    at the start, or behind the mark of a complement, is part of the text. -/
def bracketed? (cs : List Char) : Option (List Char × List Char) :=
  let mark := if cs.head? = some '!' then 1 else 0
  let head := if (cs.drop mark).head? = some ']' then mark + 1 else mark
  let body := (cs.drop head).takeWhile (· ≠ ']')
  match (cs.drop head).drop body.length with
  | _ :: rest => some (cs.take head ++ body, rest)
  | [] => none

/-- The part for a text between brackets. -/
def ofBrackets (cs : List Char) : WildcardToken :=
  match CharSet.ofChars? cs with
  | some s => if s.negated && s.ranges.isEmpty then one else set s
  | none => never

/-- Reads at most `fuel` parts of a pattern. -/
def read : Nat → List Char → List WildcardToken
  | 0, _ => []
  | _, [] => []
  | fuel + 1, c :: cs =>
    if c = '*' then run :: read fuel cs
    else if c = '?' then one :: read fuel cs
    else if c = '[' then
      match bracketed? cs with
      | some (inside, rest) => ofBrackets inside :: read fuel rest
      | none => literal '[' :: read fuel cs
    else literal c :: read fuel cs

/-- The parts of a pattern; each of them takes at least one character. -/
def ofString (pattern : String) : List WildcardToken :=
  read pattern.toList.length pattern.toList

/-- Whether the parts describe a text. -/
def describes : List WildcardToken → List Char → Bool
  | [], cs => cs.isEmpty
  | run :: ts, cs => afterRun (fun _ => true) (describes ts) cs
  | one :: ts, _ :: cs => describes ts cs
  | literal d :: ts, c :: cs => c = d && describes ts cs
  | set s :: ts, c :: cs => s.has c && describes ts cs
  | _ :: _, _ => false

end WildcardToken

/-- Whether a wildcard pattern describes a text. -/
def wildcardDescribes (pattern text : String) : Bool :=
  WildcardToken.describes (WildcardToken.ofString pattern) text.toList

end ResponseShapes
