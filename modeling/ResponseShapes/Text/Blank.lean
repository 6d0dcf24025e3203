/-!
# Blank characters and lines

Three sets of characters separate text here, and they differ. `isBlank` holds what trimming removes,
`isLineEnd` what ends a line of a text file, and `normalizeLineEnds` is the reading of a text file, in which
every spelling of a line end is a single line feed.
-/

namespace ResponseShapes.Text

/-- Characters that trimming removes: the separators of the bidirectional classes and all space separators. -/
def isBlank (c : Char) : Bool :=
  let n := c.toNat
  (0x09 ≤ n && n ≤ 0x0D) || (0x1C ≤ n && n ≤ 0x20) || n == 0x85 || n == 0xA0 || n == 0x1680 ||
    (0x2000 ≤ n && n ≤ 0x200A) || n == 0x2028 || n == 0x2029 || n == 0x202F || n == 0x205F || n == 0x3000

/-- Characters that end a line. -/
def isLineEnd (c : Char) : Bool :=
  let n := c.toNat
  (0x0A ≤ n && n ≤ 0x0D) || (0x1C ≤ n && n ≤ 0x1E) || n == 0x85 || n == 0x2028 || n == 0x2029

/-- Drops the last characters that satisfy `p`. -/
def dropEndWhile (p : Char → Bool) (cs : List Char) : List Char :=
  (cs.reverse.dropWhile p).reverse

/-- Drops blanks at both ends. -/
def trimChars (cs : List Char) : List Char :=
  dropEndWhile isBlank (cs.dropWhile isBlank)

/-- The text without the blanks at its ends. -/
def trim (s : String) : String :=
  String.ofList (trimChars s.toList)

/-- Writes every line end of a text file as one line feed. -/
def normalizeLineEnds : List Char → List Char
  | '\r' :: '\n' :: cs => '\n' :: normalizeLineEnds cs
  | '\r' :: cs => '\n' :: normalizeLineEnds cs
  | c :: cs => c :: normalizeLineEnds cs
  | [] => []

/-- Splits at line ends, given the characters of the line that is still open, latest first. -/
def linesFrom (opened : List Char) : List Char → List (List Char)
  | [] => if opened.isEmpty then [] else [opened.reverse]
  | '\r' :: '\n' :: cs => opened.reverse :: linesFrom [] cs
  | c :: cs => if isLineEnd c then opened.reverse :: linesFrom [] cs else linesFrom (c :: opened) cs

/-- The lines of a text, without their ends; a line end at the very end opens no further line. -/
def lines (cs : List Char) : List (List Char) :=
  linesFrom [] cs

/-- Whether the characters `part` stand somewhere in `cs`. -/
def occursIn (part : List Char) : List Char → Bool
  | [] => part.isEmpty
  | c :: cs => part.isPrefixOf (c :: cs) || occursIn part cs

/-- Whether the text `part` stands somewhere in `s`. -/
def contains (s part : String) : Bool :=
  occursIn part.toList s.toList

/-- Whether the text ends with `tail`. -/
def endsWith (s tail : String) : Bool :=
  tail.toList.isSuffixOf s.toList

/-- The text without its last `n` characters. -/
def dropEnd (s : String) (n : Nat) : String :=
  String.ofList (s.toList.take (s.toList.length - n))

/-- The parts between the occurrences of a separator, given the part that is still open, latest first. -/
def splitFrom (separator : Char) (opened : List Char) : List Char → List (List Char)
  | [] => [opened.reverse]
  | c :: cs =>
    if c = separator then opened.reverse :: splitFrom separator [] cs
    else splitFrom separator (c :: opened) cs

/-- The parts between the occurrences of a separator; there is one more than occurrences. -/
def split (separator : Char) (s : String) : List String :=
  (splitFrom separator [] s.toList).map String.ofList

end ResponseShapes.Text
