import ResponseShapes.Json.Basic
import ResponseShapes.Number.Decimal

/-!
# Reading JSON

A text is read from its first character to its last as one value with blanks around it. Besides the numbers of the
standard there are infinities and what is no number, by their names; of several values under one key the last one
counts. A whole number may have no more digits than `mostDigits`.
-/

namespace ResponseShapes

/-- Why a text is no JSON value. -/
inductive JsonError
  /-- The text has not the form of a value. -/
  | malformed
  /-- A whole number has too many digits. -/
  | digits (count : Nat)
  deriving DecidableEq, Repr

namespace Json

/-- The most digits of a whole number. -/
def mostDigits : Nat := 4300

/-- Characters that may stand between the parts of a value. -/
def isSpace (c : Char) : Bool :=
  c = ' ' || c = '\t' || c = '\n' || c = '\r'

/-- The text behind the blanks at its start. -/
def skipSpace (cs : List Char) : List Char :=
  cs.dropWhile isSpace

/-- The text behind a word at its start. -/
def behind? (word : String) (cs : List Char) : Option (List Char) :=
  if word.toList.isPrefixOf cs then some (cs.drop word.toList.length) else none

/-! ### Texts -/

/-- The value of a hexadecimal digit. -/
def hexValue? (c : Char) : Option Nat :=
  if c.isDigit then some (c.toNat - 0x30)
  else if 'a' ≤ c && c ≤ 'f' then some (c.toNat - 0x57)
  else if 'A' ≤ c && c ≤ 'F' then some (c.toNat - 0x37)
  else none

/-- The UTF-16 unit that four hexadecimal digits at the start give. -/
def unit? : List Char → Option (Nat × List Char)
  | a :: b :: c :: d :: cs =>
    match hexValue? a, hexValue? b, hexValue? c, hexValue? d with
    | some w, some x, some y, some z => some (((w * 16 + x) * 16 + y) * 16 + z, cs)
    | _, _, _, _ => none
  | _ => none

/-- The unit behind a backslash and the letter for units. -/
def escapedUnit? : List Char → Option (Nat × List Char)
  | '\\' :: 'u' :: cs => unit? cs
  | _ => none

/-- The character that begins with a unit. Half of a pair that stands alone is no character and is read as the
    replacement character. -/
def unitChar (unit : Nat) (rest : List Char) : Char × List Char :=
  if 0xD800 ≤ unit && unit < 0xDC00 then
    match escapedUnit? rest with
    | some (low, cs) =>
      if 0xDC00 ≤ low && low < 0xE000 then
        (Char.ofNat (0x10000 + (unit - 0xD800) * 0x400 + (low - 0xDC00)), cs)
      else ('\uFFFD', rest)
    | none => ('\uFFFD', rest)
  else if 0xDC00 ≤ unit && unit < 0xE000 then ('\uFFFD', rest)
  else (Char.ofNat unit, rest)

/-- The character that a letter behind a backslash stands for. -/
def escaped? : Char → Option Char
  | '\x22' => some '\x22'
  | '\\' => some '\\'
  | '/' => some '/'
  | 'b' => some '\x08'
  | 'f' => some '\x0C'
  | 'n' => some '\n'
  | 'r' => some '\r'
  | 't' => some '\t'
  | _ => none

/-- Reads the rest of a text up to its closing quote, in at most `fuel` characters. -/
def readText : Nat → List Char → Except JsonError (List Char × List Char)
  | 0, _ => .error .malformed
  | fuel + 1, cs =>
    match cs with
    | [] => .error .malformed
    | '\x22' :: cs => .ok ([], cs)
    | '\\' :: 'u' :: cs =>
      match unit? cs with
      | none => .error .malformed
      | some (unit, cs) => do
        let (c, cs) := unitChar unit cs
        let (body, cs) ← readText fuel cs
        return (c :: body, cs)
    | '\\' :: c :: cs =>
      match escaped? c with
      | none => .error .malformed
      | some c => do
        let (body, cs) ← readText fuel cs
        return (c :: body, cs)
    | c :: cs =>
      if c.toNat < 0x20 then .error .malformed
      else do
        let (body, cs) ← readText fuel cs
        return (c :: body, cs)

/-! ### Numbers -/

/-- The digits of a whole number at the start: a zero alone, or digits of which the first is no zero. -/
def wholeDigits : List Char → List Char × List Char
  | '0' :: cs => (['0'], cs)
  | cs => (cs.takeWhile Char.isDigit, cs.dropWhile Char.isDigit)

/-- A point with the digits behind it, if there are any. -/
def fractionPart : List Char → List Char × List Char
  | '.' :: c :: cs =>
    if c.isDigit then ('.' :: c :: cs.takeWhile Char.isDigit, cs.dropWhile Char.isDigit) else ([], '.' :: c :: cs)
  | cs => ([], cs)

/-- The sign at the start, if there is one. -/
def signPart : List Char → List Char × List Char
  | '+' :: cs => (['+'], cs)
  | '-' :: cs => (['-'], cs)
  | cs => ([], cs)

/-- The mark of an exponent with its digits, if there are any. -/
def exponentPart : List Char → List Char × List Char
  | [] => ([], [])
  | c :: cs =>
    let (sign, rest) := signPart cs
    let digits := rest.takeWhile Char.isDigit
    if (c = 'e' || c = 'E') && !digits.isEmpty then (c :: sign ++ digits, rest.dropWhile Char.isDigit)
    else ([], c :: cs)

/-- The number that digits with the given parts behind them denote. -/
def numberOf (negative : Bool) (digits fraction exponent : List Char) : Except JsonError Json :=
  if fraction.isEmpty && exponent.isEmpty then
    if mostDigits < digits.length then .error (.digits digits.length)
    else
      let n := Int.ofNat (Text.ofDigits (digits.map Text.asciiValue))
      .ok (.int (if negative then -n else n))
  else .ok (.float ((Binary64.ofUnsigned? negative (digits ++ fraction ++ exponent)).getD .nan))

/-- Reads an unsigned number. -/
def readNumber (negative : Bool) (cs : List Char) : Except JsonError (Json × List Char) := do
  let (digits, cs) := wholeDigits cs
  if digits.isEmpty then .error .malformed
  else
    let (fraction, cs) := fractionPart cs
    let (exponent, cs) := exponentPart cs
    return (← numberOf negative digits fraction exponent, cs)

/-- The values that have names. -/
def named : List (String × Json) :=
  [("null", .null), ("true", .bool true), ("false", .bool false), ("NaN", .float .nan),
   ("Infinity", .float (.infinite false)), ("-Infinity", .float (.infinite true))]

/-- Reads a value that has a name, or a number. -/
def readAtom (cs : List Char) : Except JsonError (Json × List Char) :=
  match named.findSome? fun (word, v) => (behind? word cs).map fun rest => (v, rest) with
  | some r => .ok r
  | none =>
    match cs with
    | '-' :: cs => readNumber true cs
    | cs => readNumber false cs

/-! ### Values -/

mutual

/-- Reads a value, at most `fuel` levels and items deep. -/
def readValue : Nat → List Char → Except JsonError (Json × List Char)
  | 0, _ => .error .malformed
  | fuel + 1, cs =>
    match cs with
    | '\x22' :: cs => do
      let (body, cs) ← readText (cs.length + 1) cs
      return (.text (String.ofList body), cs)
    | '[' :: cs =>
      match skipSpace cs with
      | ']' :: cs => .ok (.list [], cs)
      | cs => do
        let (items, cs) ← readItems fuel cs
        return (.list items, cs)
    | '\x7b' :: cs =>
      match skipSpace cs with
      | '\x7d' :: cs => .ok (.object [], cs)
      | cs => do
        let (entries, cs) ← readEntries fuel cs
        return (.object (Entries.ofList entries), cs)
    | cs => readAtom cs
termination_by structural fuel => fuel

/-- Reads the items of a list, of which there is at least one, and the end of the list. -/
def readItems : Nat → List Char → Except JsonError (List Json × List Char)
  | 0, _ => .error .malformed
  | fuel + 1, cs => do
    let (item, cs) ← readValue fuel cs
    match skipSpace cs with
    | ']' :: cs => return ([item], cs)
    | ',' :: cs =>
      let (items, cs) ← readItems fuel (skipSpace cs)
      return (item :: items, cs)
    | _ => .error .malformed
termination_by structural fuel => fuel

/-- Reads the entries of an object, of which there is at least one, and the end of the object. -/
def readEntries : Nat → List Char → Except JsonError (List (String × Json) × List Char)
  | 0, _ => .error .malformed
  | fuel + 1, cs =>
    match cs with
    | '\x22' :: cs => do
      let (key, cs) ← readText (cs.length + 1) cs
      match skipSpace cs with
      | ':' :: cs =>
        let (value, cs) ← readValue fuel (skipSpace cs)
        let entry := (String.ofList key, value)
        match skipSpace cs with
        | '\x7d' :: cs => return ([entry], cs)
        | ',' :: cs =>
          let (entries, cs) ← readEntries fuel (skipSpace cs)
          return (entry :: entries, cs)
        | _ => .error .malformed
      | _ => .error .malformed
    | _ => .error .malformed
termination_by structural fuel => fuel

end

/-- The value that a text denotes. -/
def ofText (cs : List Char) : Except JsonError Json := do
  let (value, rest) ← readValue (cs.length + 1) (skipSpace cs)
  if (skipSpace rest).isEmpty then return value else .error .malformed

end Json

end ResponseShapes
