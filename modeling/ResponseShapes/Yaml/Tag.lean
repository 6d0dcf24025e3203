import ResponseShapes.Text.Blank

/-!
# Tags

The tag of a node tells what it stands for. A plain scalar without a tag gets one from its text.
-/

namespace ResponseShapes.Yaml

/-- What a node stands for. -/
inductive Tag
  | null | bool | int | float | binary | timestamp | text
  | sequence | mapping | set | orderedMap | pairs
  /-- The key under which other mappings are taken in. -/
  | merge
  /-- The key of a mapping that stands for a single value. -/
  | value
  /-- Any other tag. -/
  | unknown
  deriving DecidableEq, Repr

namespace Tag

/-- The start of the names of the tags that have a meaning. -/
def nameSpace : String := "tag:yaml.org,2002:"

/-- The tags that have a meaning, by the rest of their names. -/
def named : List (String × Tag) :=
  [("null", null), ("bool", bool), ("int", int), ("float", float), ("binary", binary), ("timestamp", timestamp),
   ("str", text), ("seq", sequence), ("map", mapping), ("set", set), ("omap", orderedMap), ("pairs", pairs),
   ("merge", merge), ("value", value)]

/-- The tag of a name. -/
def ofName (name : String) : Tag :=
  match named.find? fun entry => nameSpace ++ entry.1 = name with
  | some (_, tag) => tag
  | none => unknown

/-! ### Tags of plain texts -/

/-- Words that stand for truth values. -/
def truthWords : List (String × Bool) :=
  [("yes", true), ("no", false), ("true", true), ("false", false), ("on", true), ("off", false)]

/-- Whether a text is a word in small letters, in capitals, or with one capital at its start. -/
def isSpelling (word text : String) : Bool :=
  text = word || text = word.map Char.toUpper || text = word.capitalize

/-- Moves over a sign. -/
def unsigned : List Char → List Char
  | '+' :: cs => cs
  | '-' :: cs => cs
  | cs => cs

/-- Whether the characters are some that satisfy `p`. -/
def someOf (p : Char → Bool) (cs : List Char) : Bool :=
  !cs.isEmpty && cs.all p

/-- Digits and underscores. -/
def isDigitOrLine (c : Char) : Bool :=
  c.isDigit || c = '_'

/-- A digit and then digits and underscores. -/
def startsWithDigit : List Char → Bool
  | c :: cs => c.isDigit && cs.all isDigitOrLine
  | [] => false

/-- A number below sixty in one or two digits. -/
def isSixtieth (cs : List Char) : Bool :=
  match cs with
  | [a] => a.isDigit
  | [a, b] => '0' ≤ a && a ≤ '5' && b.isDigit
  | _ => false

/-- Whether a text is a whole number: in base two, eight, ten or sixteen, or in parts that count sixties. -/
def isInt (text : List Char) : Bool :=
  match unsigned text with
  | '0' :: 'b' :: cs => someOf (fun c => c = '0' || c = '1' || c = '_') cs
  | '0' :: 'x' :: cs => someOf (fun c => c = '_' || c.isDigit || ('a' ≤ c && c ≤ 'f') || ('A' ≤ c && c ≤ 'F')) cs
  | '0' :: cs => cs.all fun c => ('0' ≤ c && c ≤ '7') || c = '_'
  | cs =>
    startsWithDigit (cs.takeWhile (· ≠ ':')) &&
      match Text.splitFrom ':' [] cs with
      | _ :: parts => parts.all isSixtieth
      | [] => false

/-- Whether a text is an exponent with its sign, or nothing. -/
def isExponent : List Char → Bool
  | [] => true
  | e :: s :: cs => (e = 'e' || e = 'E') && (s = '+' || s = '-') && someOf Char.isDigit cs
  | _ => false

/-- Whether a text is a number with a point: a decimal one, one in parts that count sixties, an infinity, or none. -/
def isFloat (text : List Char) : Bool :=
  let cs := unsigned text
  let hasSign := cs.length ≠ text.length
  let word := String.ofList cs
  if [".inf", ".Inf", ".INF"].contains word then true
  else if [".nan", ".NaN", ".NAN"].contains word then !hasSign
  else
    let whole := cs.takeWhile (· ≠ '.')
    match cs.drop whole.length with
    | _ :: rest =>
      let fraction := rest.takeWhile isDigitOrLine
      let tail := rest.drop fraction.length
      if whole.isEmpty then !hasSign && startsWithDigit fraction && isExponent tail
      else
        match Text.splitFrom ':' [] whole with
        | [first] => startsWithDigit first && isExponent tail
        | first :: parts => startsWithDigit first && parts.all isSixtieth && tail.isEmpty
        | [] => false
    | [] => false

/-- Takes digits off a text, at least `least` and at most `most` of them. -/
def takeDigits? (least most : Nat) (cs : List Char) : Option (List Char × List Char) :=
  let digits := (cs.take most).takeWhile Char.isDigit
  if digits.length < least then none else some (digits, cs.drop digits.length)

/-- Takes a character off a text. -/
def takeChar? (c : Char) : List Char → Option (List Char)
  | d :: cs => if c = d then some cs else none
  | [] => none

end Tag

/-- The parts of a date with a time, as they are written. -/
structure TimestampText where
  year : List Char
  month : List Char
  day : List Char
  /-- Hour, minute, second and the digits of a fraction. -/
  time : Option (List Char × List Char × List Char × List Char)
  /-- Whether an offset is negative, its hours and its minutes. -/
  offset : Option (Bool × List Char × List Char)

namespace TimestampText

open Tag

/-- Blanks between the parts of a timestamp. -/
def skipBlanks (cs : List Char) : List Char :=
  cs.dropWhile fun c => c = ' ' || c = '\t'

/-- Reads what follows the time: nothing, or the zone. -/
def zone? (cs : List Char) : Option (Option (Bool × List Char × List Char)) :=
  if cs.isEmpty then some none
  else
    match skipBlanks cs with
    | ['Z'] => some none
    | s :: cs =>
      if s = '+' || s = '-' then do
        let (hours, cs) ← takeDigits? 1 2 cs
        match cs with
        | [] => return some (s = '-', hours, [])
        | ':' :: cs => do
          let (minutes, cs) ← takeDigits? 2 2 cs
          if cs.isEmpty then return some (s = '-', hours, minutes) else none
        | _ => none
      else none
    | [] => none

/-- Reads a timestamp. -/
def ofChars? (cs : List Char) : Option TimestampText := do
  let (year, cs) ← takeDigits? 4 4 cs
  let (month, cs) ← takeDigits? 1 2 (← takeChar? '-' cs)
  let (day, cs) ← takeDigits? 1 2 (← takeChar? '-' cs)
  if cs.isEmpty then return { year, month, day, time := none, offset := none }
  else
    let gap := skipBlanks cs
    let cs ←
      match cs with
      | c :: rest => if c = 't' || c = 'T' then some rest else if gap.length < cs.length then some gap else none
      | [] => none
    let (hour, cs) ← takeDigits? 1 2 cs
    let (minute, cs) ← takeDigits? 2 2 (← takeChar? ':' cs)
    let (second, cs) ← takeDigits? 2 2 (← takeChar? ':' cs)
    let (fraction, cs) :=
      match cs with
      | '.' :: rest => (rest.takeWhile Char.isDigit, rest.dropWhile Char.isDigit)
      | cs => ([], cs)
    return { year, month, day, time := some (hour, minute, second, fraction), offset := ← zone? cs }

end TimestampText

namespace Tag

/-- Whether a text is a timestamp; a date without a time has two digits for month and day. -/
def isTimestamp (cs : List Char) : Bool :=
  match TimestampText.ofChars? cs with
  | some t => t.time.isSome || (t.month.length = 2 && t.day.length = 2)
  | none => false

/-- The tag that the text of a scalar without a tag gives. A line feed at its end does not matter. -/
def ofText (text : String) : Tag :=
  let cs := text.toList
  let line := if cs.getLast? = some '\n' then cs.dropLast else cs
  let word := String.ofList line
  if truthWords.any fun entry => isSpelling entry.1 word then bool
  else if isFloat line then float
  else if isInt line then int
  else if word = "<<" then merge
  else if (word = "" && cs.isEmpty) || word = "~" || isSpelling "null" word then null
  else if isTimestamp line then timestamp
  else if word = "=" then value
  else if ["!", "&", "*"].contains word then unknown
  else Tag.text

end Tag

end ResponseShapes.Yaml
