import ResponseShapes.Text.Hex

/-!
# SHA-256

The hash of the secure hash standard: bytes are padded to blocks of sixty-four and mixed into eight words.
-/

namespace ResponseShapes.Sha256

/-- The constants of the rounds: the fractions of the cube roots of the first primes. -/
def constants : List UInt32 :=
  [0x428a2f98, 0x71374491, 0xb5c0fbcf, 0xe9b5dba5, 0x3956c25b, 0x59f111f1, 0x923f82a4, 0xab1c5ed5,
   0xd807aa98, 0x12835b01, 0x243185be, 0x550c7dc3, 0x72be5d74, 0x80deb1fe, 0x9bdc06a7, 0xc19bf174,
   0xe49b69c1, 0xefbe4786, 0x0fc19dc6, 0x240ca1cc, 0x2de92c6f, 0x4a7484aa, 0x5cb0a9dc, 0x76f988da,
   0x983e5152, 0xa831c66d, 0xb00327c8, 0xbf597fc7, 0xc6e00bf3, 0xd5a79147, 0x06ca6351, 0x14292967,
   0x27b70a85, 0x2e1b2138, 0x4d2c6dfc, 0x53380d13, 0x650a7354, 0x766a0abb, 0x81c2c92e, 0x92722c85,
   0xa2bfe8a1, 0xa81a664b, 0xc24b8b70, 0xc76c51a3, 0xd192e819, 0xd6990624, 0xf40e3585, 0x106aa070,
   0x19a4c116, 0x1e376c08, 0x2748774c, 0x34b0bcb5, 0x391c0cb3, 0x4ed8aa4a, 0x5b9cca4f, 0x682e6ff3,
   0x748f82ee, 0x78a5636f, 0x84c87814, 0x8cc70208, 0x90befffa, 0xa4506ceb, 0xbef9a3f7, 0xc67178f2]

/-- The words that are mixed. -/
structure State where
  a : UInt32
  b : UInt32
  c : UInt32
  d : UInt32
  e : UInt32
  f : UInt32
  g : UInt32
  h : UInt32

/-- The words at the start: the fractions of the square roots of the first primes. -/
def State.initial : State :=
  ⟨0x6a09e667, 0xbb67ae85, 0x3c6ef372, 0xa54ff53a, 0x510e527f, 0x9b05688c, 0x1f83d9ab, 0x5be0cd19⟩

/-- Turns the bits of a word to the right. -/
def rotate (x n : UInt32) : UInt32 :=
  (x >>> n) ||| (x <<< (32 - n))

/-- The word after sixteen words of a schedule, which are given latest first. -/
def nextWord (latest : List UInt32) : UInt32 :=
  let w (k : Nat) := (latest[k]?).getD 0
  let x := w 14
  let y := w 1
  let s := rotate x 7 ^^^ rotate x 18 ^^^ (x >>> 3)
  let t := rotate y 17 ^^^ rotate y 19 ^^^ (y >>> 10)
  w 15 + s + w 6 + t

/-- Adds `n` words to a schedule, which is given latest first. -/
def extend : Nat → List UInt32 → List UInt32
  | 0, ws => ws
  | n + 1, ws => extend n (nextWord ws :: ws)

/-- One round with its constant and the word of the schedule. -/
def State.round (s : State) (input : UInt32 × UInt32) : State :=
  let mixE := rotate s.e 6 ^^^ rotate s.e 11 ^^^ rotate s.e 25
  let choice := (s.e &&& s.f) ^^^ (~~~s.e &&& s.g)
  let first := s.h + mixE + choice + input.1 + input.2
  let mixA := rotate s.a 2 ^^^ rotate s.a 13 ^^^ rotate s.a 22
  let majority := (s.a &&& s.b) ^^^ (s.a &&& s.c) ^^^ (s.b &&& s.c)
  ⟨first + mixA + majority, s.a, s.b, s.c, s.d + first, s.e, s.f, s.g⟩

/-- Adds the words of two states. -/
def State.add (s t : State) : State :=
  ⟨s.a + t.a, s.b + t.b, s.c + t.c, s.d + t.d, s.e + t.e, s.f + t.f, s.g + t.g, s.h + t.h⟩

/-- A word of four bytes, the first of which counts most. -/
def word (bs : List UInt8) : UInt32 :=
  bs.foldl (fun n b => n * 256 + b.toUInt32) 0

/-- The first `n` words of bytes. -/
def wordsOf : Nat → List UInt8 → List UInt32
  | 0, _ => []
  | n + 1, bs => word (bs.take 4) :: wordsOf n (bs.drop 4)

/-- Mixes a block of sixty-four bytes into a state. -/
def State.block (s : State) (bs : List UInt8) : State :=
  let schedule := (extend 48 (wordsOf 16 bs).reverse).reverse
  s.add ((constants.zip schedule).foldl State.round s)

/-- Mixes the first `n` blocks of bytes into a state. -/
def State.blocks : Nat → State → List UInt8 → State
  | 0, s, _ => s
  | n + 1, s, bs => State.blocks n (s.block (bs.take 64)) (bs.drop 64)

/-- A number in eight bytes, the first of which counts most. -/
def lengthBytes (n : Nat) : List UInt8 :=
  (List.range 8).map fun k => UInt8.ofNat (n >>> (8 * (7 - k)))

/-- The bytes with their padding: a bit that is set, zeros, and the number of bits. -/
def padded (bs : List UInt8) : List UInt8 :=
  let zeros := (119 - bs.length % 64) % 64
  bs ++ 0x80 :: List.replicate zeros 0 ++ lengthBytes (8 * bs.length)

/-- The hash of bytes as sixty-four hexadecimal digits. -/
def digest (bs : List UInt8) : String :=
  let input := padded bs
  let s := State.blocks (input.length / 64) State.initial input
  String.ofList ([s.a, s.b, s.c, s.d, s.e, s.f, s.g, s.h].flatMap fun w => Text.hex 8 w.toNat)

end ResponseShapes.Sha256
