import ResponseShapes.Number.Decimal
import ResponseShapes.Yaml.Fault
import ResponseShapes.Yaml.Tag

/-!
# Values of scalars

What the text of a scalar stands for under its tag. A tag that is given may not fit the text.
-/

namespace ResponseShapes.Yaml

/-- The value of a scalar. -/
inductive Scalar
  | null
  | bool (b : Bool)
  | int (i : Int)
  | float (x : Binary64)
  | text (s : String)
  | bytes (bs : List UInt8)
  | timestamp
  deriving DecidableEq, Repr

namespace Scalar

/-! ### Whole numbers -/

/-- Moves over the mark of a base in front of its digits. -/
def dropBaseMark (base : Nat) : List Char → List Char
  | '0' :: c :: cs =>
    let mark := if base = 16 then 'x' else if base = 8 then 'o' else if base = 2 then 'b' else '0'
    if mark ≠ '0' && c.toLower = mark then cs else '0' :: c :: cs
  | cs => cs

/-- The value of a digit in a base. -/
def digit? (base : Nat) (c : Char) : Option Nat :=
  (Text.hexValue? c).filter (· < base)

/-- The whole number that a text without underscores denotes in a base. -/
def whole (base : Nat) (text : List Char) : Except Fault Int :=
  let (negative, cs) := Text.splitSign (Text.numberText text)
  let digits := dropBaseMark base cs
  match digits.mapM (digit? base) with
  | some ds =>
    if ds.isEmpty then .error (.notWhole base (String.ofList text))
    else if base = 10 && Fault.mostDigits < ds.length then .error (.tooManyDigits ds.length)
    else
      let n := Int.ofNat (ds.foldl (fun n d => base * n + d) 0)
      .ok (if negative then -n else n)
  | none => .error (.notWhole base (String.ofList text))

/-- The sum of parts that count sixties, of which the last one counts ones. -/
def sixties (parts : List Int) : Int :=
  parts.foldl (fun n p => 60 * n + p) 0

/-- The text of a number without underscores, split into its sign and the rest; a text without a character has no
    sign. -/
def signed (text : String) : Except Fault (Bool × List Char) :=
  match text.toList.filter (· ≠ '_') with
  | [] => .error .emptyNumber
  | c :: cs => .ok (c = '-', if c = '-' || c = '+' then cs else c :: cs)

/-- The whole number of a scalar. -/
def int? (text : String) : Except Fault Int := do
  let (negative, cs) ← signed text
  let n ←
    match cs with
    | ['0'] => pure 0
    | '0' :: 'b' :: ds => whole 2 ds
    | '0' :: 'x' :: ds => whole 16 ds
    | '0' :: ds => whole 8 ('0' :: ds)
    | [] => .error .emptyNumber
    | ds =>
      if ds.contains ':' then sixties <$> (Text.splitFrom ':' [] ds).mapM (whole 10) else whole 10 ds
  return if negative then -n else n

/-! ### Numbers with a point -/

/-- The number that a text denotes. -/
def number (text : List Char) : Except Fault Binary64 :=
  match Binary64.ofText? (String.ofList text) with
  | some x => .ok x
  | none => .error (.notNumber (String.ofList text))

/-- Adds up parts that count sixties, the first of which counts multiples of `unit`. -/
def sixtiesFrom (unit : Int) (sum : Binary64) : List Binary64 → Except Fault Binary64
  | [] => .ok sum
  | p :: ps =>
    match Binary64.ofInt? unit with
    | some u => sixtiesFrom (60 * unit) (sum.add (p.mul u)) ps
    | none => .error .tooLarge

/-- The number of a scalar. -/
def float? (text : String) : Except Fault Binary64 := do
  let (negative, cs) ← signed text
  let cs := (Text.lower (String.ofList cs)).toList
  let x ←
    if cs = ['.', 'i', 'n', 'f'] then pure (Binary64.infinite false)
    else if cs = ['.', 'n', 'a', 'n'] then pure .nan
    else if cs.contains ':' then do
      let parts ← (Text.splitFrom ':' [] cs).mapM number
      sixtiesFrom 1 (Binary64.ofQuotient false 0 1) parts.reverse
    else number cs
  return if negative then x.negate else x

/-! ### Bytes -/

/-- The value of a character in base sixty-four. -/
def sextet? (c : Char) : Option Nat :=
  if 'A' ≤ c && c ≤ 'Z' then some (c.toNat - 0x41)
  else if 'a' ≤ c && c ≤ 'z' then some (c.toNat - 0x47)
  else if c.isDigit then some (c.toNat + 4)
  else if c = '+' then some 62
  else if c = '/' then some 63
  else none

/-- Decodes characters of which `place` of a group of four were read and `pads` equals signs since, where `left` holds
    the bits that are left over. Other characters are passed over, and enough equals signs end the text. -/
def sextets (place left pads : Nat) : List Char → Option (List UInt8)
  | [] => if place = 0 then some [] else none
  | c :: cs =>
    if c = '=' then
      if 2 ≤ place && 4 ≤ place + pads + 1 then some []
      else sextets place left (if 2 ≤ place then pads + 1 else pads) cs
    else
      match sextet? c with
      | none => sextets place left pads cs
      | some n =>
        match place with
        | 0 => sextets 1 n 0 cs
        | 1 => (sextets 2 (n % 16) 0 cs).map (UInt8.ofNat (left * 4 + n / 16) :: ·)
        | 2 => (sextets 3 (n % 4) 0 cs).map (UInt8.ofNat (left * 16 + n / 4) :: ·)
        | _ => (sextets 0 0 0 cs).map (UInt8.ofNat (left * 64 + n) :: ·)

/-- The bytes of a scalar. -/
def bytes? (text : String) : Except Fault (List UInt8) :=
  if text.toList.all (·.toNat < 0x80) then
    match sextets 0 0 0 text.toList with
    | some bs => .ok bs
    | none => .error .malformed
  else .error .malformed

/-! ### Timestamps -/

/-- The number that digits denote. -/
def digitsValue (cs : List Char) : Nat :=
  Text.ofDigits (cs.map Text.asciiValue)

/-- Whether a year has a day more. -/
def isLeapYear (year : Nat) : Bool :=
  year % 4 = 0 && (year % 100 ≠ 0 || year % 400 = 0)

/-- The number of days of a month. -/
def daysOf (year month : Nat) : Nat :=
  if month = 2 then if isLeapYear year then 29 else 28
  else if month = 4 || month = 6 || month = 9 || month = 11 then 30
  else 31

/-- The first part of a timestamp that lies outside of its range. -/
def outOfRange? (t : TimestampText) : Option TimestampPart :=
  let year := digitsValue t.year
  let month := digitsValue t.month
  let day := digitsValue t.day
  let offset : Int :=
    match t.offset with
    | some (negative, hours, minutes) =>
      let n : Int := 3600 * digitsValue hours + 60 * digitsValue minutes
      if negative then -n else n
    | none => 0
  if 86400 ≤ offset.natAbs then some (.offset offset)
  else if year = 0 then some .year
  else if month = 0 || 12 < month then some .month
  else if day = 0 || daysOf year month < day then some .day
  else
    match t.time with
    | some (hour, minute, second, _) =>
      if 23 < digitsValue hour then some .hour
      else if 59 < digitsValue minute then some .minute
      else if 59 < digitsValue second then some .second
      else none
    | none => none

/-- Checks the timestamp of a scalar. -/
def timestamp? (text : String) : Except Fault Unit :=
  let cs := text.toList
  match TimestampText.ofChars? (if cs.getLast? = some '\n' then cs.dropLast else cs) with
  | none => .error .notTimestamp
  | some t =>
    match outOfRange? t with
    | some part => .error (.outOfRange part)
    | none => .ok ()

/-! ### Scalars by their tags -/

/-- The truth value of a scalar. -/
def bool? (text : String) : Except Fault Bool :=
  match Tag.truthWords.find? fun entry => entry.1 = Text.lower text with
  | some (_, b) => .ok b
  | none => .error (.notTruth (Text.lower text))

/-- The value of a scalar under a tag; only the tags of single values have one. -/
def read (tag : Tag) (text : String) : Except Fault Scalar :=
  match tag with
  | .null => .ok .null
  | .bool => bool <$> bool? text
  | .int => int <$> int? text
  | .float => float <$> float? text
  | .binary => bytes <$> bytes? text
  | .timestamp => (fun _ => timestamp) <$> timestamp? text
  | .text => .ok (.text text)
  | _ => .error .malformed

end Scalar

end ResponseShapes.Yaml
