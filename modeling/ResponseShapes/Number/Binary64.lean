/-!
# Binary numbers of 64 bits

The numbers of the IEEE format with 53 binary digits. A finite one is a whole number times a power of two; rounding
goes to the nearest such number and, half way between two, to the one with the even whole number.
-/

namespace ResponseShapes

/-- A number of the format: `significand * 2 ^ exponent` with a sign, an infinity, or no number. -/
inductive Binary64
  | finite (negative : Bool) (significand : Nat) (exponent : Int)
  | infinite (negative : Bool)
  | nan
  deriving DecidableEq, Repr

namespace Binary64

/-- The least exponent of the format. -/
def leastExponent : Int := -1074

/-- The greatest exponent of the format. -/
def greatestExponent : Int := 971

/-- The whole number nearest to a quotient; a half goes to the even neighbour. -/
def nearestQuotient (num den : Nat) : Nat :=
  let q := num / den
  let twice := 2 * (num % den)
  if twice < den || (twice = den && q % 2 = 0) then q else q + 1

/-- A power of two as a quotient. -/
def powerOfTwo (e : Int) : Nat × Nat :=
  if e < 0 then (1, Nat.pow 2 (-e).toNat) else (Nat.pow 2 e.toNat, 1)

/-- The exponent with which a positive quotient has 53 digits, or the least one. -/
def exponentOf (num den : Nat) : Int :=
  let log : Int := (num.log2 : Int) - den.log2
  let (p, q) := powerOfTwo log
  max leastExponent ((if p * den ≤ num * q then log else log - 1) - 52)

/-- The number nearest to a quotient. -/
def ofQuotient (negative : Bool) (num den : Nat) : Binary64 :=
  if num = 0 then finite negative 0 leastExponent
  else
    let e := exponentOf num den
    let (p, q) := powerOfTwo e
    let significand := nearestQuotient (num * q) (den * p)
    let (significand, e) := if significand = Nat.pow 2 53 then (Nat.pow 2 52, e + 1) else (significand, e)
    if e > greatestExponent then infinite negative else finite negative significand e

/-- The number nearest to a whole number; none if that lies beyond all finite ones. -/
def ofInt? (i : Int) : Option Binary64 :=
  match ofQuotient (i < 0) i.natAbs 1 with
  | finite s m e => some (finite s m e)
  | _ => none

/-- The number with the opposite sign. -/
def negate : Binary64 → Binary64
  | finite s m e => finite (!s) m e
  | infinite s => infinite (!s)
  | nan => nan

/-- A finite number as a whole number over a positive one. -/
def quotient (negative : Bool) (significand : Nat) (exponent : Int) : Int × Nat :=
  let (p, q) := powerOfTwo exponent
  ((if negative then -1 else 1) * Int.ofNat (significand * p), q)

/-- The sum, rounded. -/
def add : Binary64 → Binary64 → Binary64
  | nan, _ => nan
  | _, nan => nan
  | infinite s, infinite t => if s = t then infinite s else nan
  | infinite s, _ => infinite s
  | _, infinite t => infinite t
  | finite s m e, finite t n f =>
    let (a, p) := quotient s m e
    let (b, q) := quotient t n f
    let sum := a * q + b * p
    if sum = 0 then finite (s && t) 0 leastExponent else ofQuotient (sum < 0) sum.natAbs (p * q)

/-- Whether the number is zero, of either sign. -/
def isZero : Binary64 → Bool
  | finite _ m _ => m = 0
  | _ => false

/-- Whether the number has a minus sign. -/
def isNegative : Binary64 → Bool
  | finite s _ _ => s
  | infinite s => s
  | nan => false

/-- The product, rounded. -/
def mul : Binary64 → Binary64 → Binary64
  | nan, _ => nan
  | _, nan => nan
  | finite s m e, finite t n f =>
    let (a, p) := quotient false m e
    let (b, q) := quotient false n f
    ofQuotient (s != t) (a * b).natAbs (p * q)
  | x, y => if x.isZero || y.isZero then nan else infinite (x.isNegative != y.isNegative)

/-- Whether the number is known to be zero or less; what is no number is not. -/
def isAtMostZero : Binary64 → Bool
  | finite s m _ => s || m = 0
  | infinite s => s
  | nan => false

/-- Whether a quotient is greater than the number; nothing is greater than what is no number. -/
def isBelow (x : Binary64) (num : Int) (den : Nat) : Bool :=
  match x with
  | finite s m e =>
    let (a, p) := quotient s m e
    a * den < num * p
  | infinite s => s
  | nan => false

/-- Whether the number is less than another; what is no number is less than nothing and nothing is less than it. -/
def isLess (x : Binary64) : Binary64 → Bool
  | finite s m e =>
    let (a, p) := quotient s m e
    x.isBelow a p
  | infinite t =>
    match x with
    | finite _ _ _ => !t
    | infinite s => s && !t
    | nan => false
  | nan => false

end Binary64

end ResponseShapes
