import ResponseShapes.Text.Hex

/-!
# UTF-8

A text is stored as the UTF-8 bytes of its characters. Bytes that are not those of a text are refused with the first
place that is wrong.
-/

namespace ResponseShapes.Text

/-- What is wrong at a place. -/
inductive EncodingFault
  | start | continuation | truncated
  deriving DecidableEq, Repr

/-- The bytes from `first` up to `last` are not those of a character; `byte` is the first of them. -/
structure EncodingError where
  fault : EncodingFault
  first : Nat
  last : Nat
  byte : UInt8
  deriving DecidableEq, Repr

namespace EncodingError

/-- What is wrong, in words. -/
def reason (e : EncodingError) : String :=
  match e.fault with
  | .start => "invalid start byte"
  | .continuation => "invalid continuation byte"
  | .truncated => "unexpected end of data"

/-- What is said about the error. -/
def message (e : EncodingError) : String :=
  let place :=
    if e.first = e.last then s!"byte 0x{String.ofList (hex 2 e.byte.toNat)} in position {e.first}"
    else s!"bytes in position {e.first}-{e.last}"
  s!"'utf-8' codec can't decode {place}: {e.reason}"

end EncodingError

/-- The bytes of a text. -/
def encode (cs : List Char) : List UInt8 :=
  cs.flatMap String.utf8EncodeChar

/-- How the bytes of a character begin: their number, the bits of the first byte, and the values that the second
    may have. -/
structure LeadByte where
  length : Nat
  bits : Nat
  least : Nat
  greatest : Nat

/-- Reads the first byte of a character of several bytes. -/
def LeadByte.of? (n : Nat) : Option LeadByte :=
  if 0xC2 ≤ n && n ≤ 0xDF then some ⟨2, n - 0xC0, 0x80, 0xBF⟩
  else if n = 0xE0 then some ⟨3, 0, 0xA0, 0xBF⟩
  else if n = 0xED then some ⟨3, 0x0D, 0x80, 0x9F⟩
  else if 0xE0 ≤ n && n ≤ 0xEF then some ⟨3, n - 0xE0, 0x80, 0xBF⟩
  else if n = 0xF0 then some ⟨4, 0, 0x90, 0xBF⟩
  else if n = 0xF4 then some ⟨4, 4, 0x80, 0x8F⟩
  else if 0xF0 ≤ n && n ≤ 0xF4 then some ⟨4, n - 0xF0, 0x80, 0xBF⟩
  else none

/-- Whether a byte may stand at a place behind the first one of a character. -/
def LeadByte.continues (l : LeadByte) (place : Nat) (b : UInt8) : Bool :=
  if place = 1 then l.least ≤ b.toNat && b.toNat ≤ l.greatest else 0x80 ≤ b.toNat && b.toNat ≤ 0xBF

/-- The number of bytes that continue a character from a place on, at most `wanted` of them. -/
def LeadByte.run (l : LeadByte) : Nat → Nat → List UInt8 → Nat
  | 0, _, _ => 0
  | _, _, [] => 0
  | wanted + 1, place, b :: bs => if l.continues place b then l.run wanted (place + 1) bs + 1 else 0

/-- The character of a number; numbers without a character do not arise from bytes that pass. -/
def charOf (bits : Nat) (bs : List UInt8) : Char :=
  Char.ofNat (bs.foldl (fun n b => 64 * n + b.toNat % 64) bits)

/-- Decodes bytes of which `position` were read before, in at most `fuel` characters. -/
def decodeFrom : Nat → Nat → List UInt8 → Except EncodingError (List Char)
  | 0, _, _ => .ok []
  | _, _, [] => .ok []
  | fuel + 1, position, b :: bs =>
    if b.toNat < 0x80 then (decodeFrom fuel (position + 1) bs).map (Char.ofNat b.toNat :: ·)
    else
      match LeadByte.of? b.toNat with
      | none => .error { fault := .start, first := position, last := position, byte := b }
      | some l =>
        let count := l.run (l.length - 1) 1 bs
        if count = l.length - 1 then
          (decodeFrom fuel (position + l.length) (bs.drop count)).map (charOf l.bits (bs.take count) :: ·)
        else if count = bs.length then
          .error { fault := .truncated, first := position, last := position + count, byte := b }
        else .error { fault := .continuation, first := position, last := position + count, byte := b }

/-- The text whose bytes are given. -/
def decode (bs : List UInt8) : Except EncodingError (List Char) :=
  decodeFrom bs.length 0 bs

end ResponseShapes.Text
