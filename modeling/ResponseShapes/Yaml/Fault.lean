import ResponseShapes.Text.Quotation
import ResponseShapes.Yaml.Cursor

/-!
# Faults of values

A document may have the right form and yet hold a scalar that stands for no value, such as a date in a thirteenth
month.
-/

namespace ResponseShapes.Yaml

/-- A part of a timestamp that lies outside of its range. -/
inductive TimestampPart
  | year | month | day | hour | minute | second
  /-- An offset of a day or more, in seconds. -/
  | offset (seconds : Int)
  deriving DecidableEq, Repr

/-- Why a text stands for no value. -/
inductive Fault
  /-- The text is no document, or one whose nodes and tags do not fit together. -/
  | malformed
  /-- The text is no whole number in the base. -/
  | notWhole (base : Nat) (text : String)
  /-- The text of a whole number has too many digits. -/
  | tooManyDigits (digits : Nat)
  /-- A whole number has too many digits to be written. -/
  | tooLongToWrite
  /-- A whole number lies beyond all finite numbers with a point. -/
  | tooLarge
  /-- The text is no number. -/
  | notNumber (text : String)
  /-- A number has no digits. -/
  | emptyNumber
  /-- The text is no truth value. -/
  | notTruth (text : String)
  /-- The text is no timestamp. -/
  | notTimestamp
  /-- A part of a timestamp lies outside of its range. -/
  | outOfRange (part : TimestampPart)
  /-- No character has the number. -/
  | noCharacter (code : Nat)
  deriving DecidableEq, Repr

namespace TimestampPart

/-- An amount of time in days and seconds. -/
def durationText (seconds : Int) : String :=
  let days := seconds.fdiv 86400
  let left := seconds.fmod 86400
  s!"datetime.timedelta(days={days}" ++ (if left = 0 then ")" else s!", seconds={left})")

/-- What is said about a part that lies outside of its range. -/
def message : TimestampPart → String
  | year => "year 0 is out of range"
  | month => "month must be in 1..12"
  | day => "day is out of range for month"
  | hour => "hour must be in 0..23"
  | minute => "minute must be in 0..59"
  | second => "second must be in 0..59"
  | offset seconds =>
    "offset must be a timedelta strictly between -timedelta(hours=24) and timedelta(hours=24), not " ++
      durationText seconds ++ "."

end TimestampPart

namespace Fault

/-- The largest number that fits into an index. -/
def largestIndex : Nat := 0x7FFFFFFF

/-- The most digits of a whole number in decimal text. -/
def mostDigits : Nat := 4300

/-- What is said about a fault. -/
def message : Fault → String
  | malformed => "malformed"
  | notWhole base text =>
    s!"invalid literal for int() with base {base}: " ++ String.ofList ((Text.quoted text).toList.take 200)
  | tooManyDigits digits =>
    s!"Exceeds the limit ({mostDigits} digits) for integer string conversion: value has {digits} digits; use " ++
      "sys.set_int_max_str_digits() to increase the limit"
  | tooLongToWrite =>
    s!"Exceeds the limit ({mostDigits} digits) for integer string conversion; use " ++
      "sys.set_int_max_str_digits() to increase the limit"
  | tooLarge => "int too large to convert to float"
  | notNumber text => "could not convert string to float: " ++ Text.quoted text
  | emptyNumber => "string index out of range"
  | notTruth text => Text.quoted text
  | notTimestamp => "'NoneType' object has no attribute 'groupdict'"
  | outOfRange part => part.message
  | noCharacter code =>
    if code ≤ largestIndex then "chr() arg not in range(0x110000)" else "Python int too large to convert to C int"

/-- The fault of a text that cannot be read. -/
def ofRead : ReadError → Fault
  | .malformed => malformed
  | .noCharacter code => noCharacter code

end Fault

end ResponseShapes.Yaml
