import ResponseShapes.Number.Binary64
import ResponseShapes.Text.Digits

/-!
# Decimal text of binary numbers

A number is read from decimal text as the nearest number of the format, and written with the fewest digits that read
back as the same number; of several such texts the one nearest to the number is written.
-/

namespace ResponseShapes

namespace Binary64

/-- The number of decimal digits of a whole number. -/
def digitCount (n : Nat) : Nat :=
  (Nat.toDigits 10 n).length

/-- The number nearest to `coefficient * 10 ^ exponent`. Exponents far outside the format are not raised to. -/
def ofDecimal (negative : Bool) (coefficient : Nat) (exponent : Int) : Binary64 :=
  let size := (digitCount coefficient : Int) + exponent
  if coefficient = 0 || size < -330 then finite negative 0 leastExponent
  else if size > 310 then infinite negative
  else if exponent < 0 then ofQuotient negative coefficient (Nat.pow 10 (-exponent).toNat)
  else ofQuotient negative (coefficient * Nat.pow 10 exponent.toNat) 1

/-! ### Reading -/

/-- Removes underscores, each of which must stand between two digits; `before` is the character in front. -/
def withoutUnderscores? (before : Char) : List Char → Option (List Char)
  | [] => if before = '_' then none else some []
  | c :: cs =>
    if c = '_' then if before.isDigit then withoutUnderscores? c cs else none
    else if before = '_' && !c.isDigit then none
    else (withoutUnderscores? c cs).map (c :: ·)

/-- An exponent with its mark; nothing is the exponent zero. -/
def exponent? : List Char → Option Int
  | [] => some 0
  | c :: cs =>
    let (negative, digits) := Text.splitSign cs
    if (c = 'e' || c = 'E') && !digits.isEmpty && digits.all Char.isDigit then
      let n := Int.ofNat (Text.ofDigits (digits.map Text.asciiValue))
      some (if negative then -n else n)
    else none

/-- The number that unsigned decimal text in ASCII denotes. -/
def ofUnsigned? (negative : Bool) (cs : List Char) : Option Binary64 :=
  let whole := cs.takeWhile Char.isDigit
  let rest := cs.dropWhile Char.isDigit
  let (fraction, rest) :=
    match rest with
    | '.' :: ds => (ds.takeWhile Char.isDigit, ds.dropWhile Char.isDigit)
    | ds => ([], ds)
  let digits := whole ++ fraction
  if digits.isEmpty then none
  else (exponent? rest).map fun e =>
    ofDecimal negative (Text.ofDigits (digits.map Text.asciiValue)) (e - fraction.length)

/-- The number that a text denotes: decimal text in the digits of any script, an infinity, or no number by its name,
    with blanks around it. -/
def ofText? (text : String) : Option Binary64 :=
  let (negative, cs) := Text.splitSign (Text.numberText text.toList)
  let word := String.ofList (cs.map Char.toLower)
  if word = "inf" || word = "infinity" then some (infinite negative)
  else if word = "nan" then some nan
  else (withoutUnderscores? ' ' cs).bind (ofUnsigned? negative)

/-! ### Writing -/

/-- The power of ten at the first digit of a positive quotient that is no smaller than the format's least number. -/
def leadingPower (num den : Nat) : Int :=
  (digitCount (num * Nat.pow 10 330 / den) : Int) - 331

/-- The decimal of at most `digits` digits that is nearest to a finite number among those that read back as it, as a
    coefficient with its exponent. -/
def decimal? (significand : Nat) (exponent : Int) (digits : Nat) : Option (Nat × Int) :=
  let (p, q) := powerOfTwo exponent
  let num := significand * p
  let unit := leadingPower num q + 1 - digits
  let (a, b) := if unit < 0 then (num * Nat.pow 10 (-unit).toNat, q) else (num, q * Nat.pow 10 unit.toNat)
  let below := a / b
  let twice := 2 * (a % b)
  let order :=
    if twice < b || (twice = b && below % 2 = 0) then [below, below + 1] else [below + 1, below]
  (order.find? fun c => ofDecimal false c unit = finite false significand exponent).map (·, unit)

/-- The shortest decimal that reads back as a finite number; seventeen digits always do. -/
def shortest (significand : Nat) (exponent : Int) : Nat × Int :=
  ((List.range' 1 17).findSome? (decimal? significand exponent)).getD (significand, 0)

/-- The digits of a coefficient without zeros at the end. -/
def significantDigits (coefficient : Nat) : List Char :=
  Text.dropEndWhile (· == '0') (Nat.toDigits 10 coefficient)

/-- An exponent of at least two digits with its sign. -/
def exponentText (e : Int) : List Char :=
  let digits := Nat.toDigits 10 e.natAbs
  (if e < 0 then '-' else '+') :: (List.replicate (2 - digits.length) '0' ++ digits)

/-- Writes digits whose first one stands at the power `power` of ten: with a point in its place from `10 ^ -4` up to
    below `10 ^ 16`, else with an exponent. -/
def placed (digits : List Char) (power : Int) : List Char :=
  if power < -4 || power ≥ 16 then
    let mantissa := match digits with
      | d :: e :: ds => d :: '.' :: e :: ds
      | ds => ds
    mantissa ++ 'e' :: exponentText power
  else if power < 0 then '0' :: '.' :: (List.replicate (-power - 1).toNat '0' ++ digits)
  else
    let places := power.toNat + 1
    let whole := digits.take places ++ List.replicate (places - digits.length) '0'
    let fraction := digits.drop places
    whole ++ '.' :: (if fraction.isEmpty then ['0'] else fraction)

/-- The text of a number. -/
def text : Binary64 → String
  | nan => "nan"
  | infinite s => if s then "-inf" else "inf"
  | finite s m e =>
    let cs :=
      if m = 0 then "0.0".toList
      else
        let (coefficient, unit) := shortest m e
        placed (significantDigits coefficient) (unit + digitCount coefficient - 1)
    String.ofList (if s then '-' :: cs else cs)

end Binary64

end ResponseShapes
