/-!
# UTF-8

Strict decoding of bytes to text. A character starts with a byte that tells how many bytes follow
it and in which range the first of them lies; the others lie between 0x80 and 0xBF. Overlong forms,
surrogates and code points above 0x10FFFF are excluded by those ranges. The first fault is reported
with the offsets of the bytes it is about, a cut-off character being reported without the byte that
does not continue it.

`lines` gives text its one line end.
-/

namespace Mustache.Text.Utf8

/-- What is wrong with a piece of bytes. -/
inductive Reason
  /-- The byte cannot start a character. -/
  | badStart
  /-- The byte after the piece does not continue its character. -/
  | badContinuation
  /-- The bytes end within a character. -/
  | cutOff
  /-- The byte is above those that characters have in an encoding of one byte each. -/
  | beyondAscii
  deriving DecidableEq, Repr

/-- A fault, with the bytes that it is about: `count` of them from `start` on, the first being
`byte`. -/
structure Fault where
  byte : UInt8
  start : Nat
  count : Nat
  reason : Reason
  deriving DecidableEq, Repr

/-- What a first byte says about its character: the bits that it gives, how many bytes follow, and
the range of the next one. -/
structure Lead where
  bits : Nat
  following : Nat
  low : Nat
  high : Nat

/-- What a first byte says, unless it cannot be one. -/
def lead? (b : Nat) : Option Lead :=
  if b < 0x80 then some ⟨b, 0, 0, 0⟩
  else if b < 0xC2 then none
  else if b < 0xE0 then some ⟨b - 0xC0, 1, 0x80, 0xBF⟩
  else if b = 0xE0 then some ⟨0, 2, 0xA0, 0xBF⟩
  else if b = 0xED then some ⟨0xD, 2, 0x80, 0x9F⟩
  else if b < 0xF0 then some ⟨b - 0xE0, 2, 0x80, 0xBF⟩
  else if b = 0xF0 then some ⟨0, 3, 0x90, 0xBF⟩
  else if b < 0xF4 then some ⟨b - 0xF0, 3, 0x80, 0xBF⟩
  else if b = 0xF4 then some ⟨4, 3, 0x80, 0x8F⟩
  else none

/-- A character of which the first bytes have been read. -/
structure Pending where
  first : UInt8
  start : Nat
  bits : Nat
  /-- How many bytes are still to come. -/
  following : Nat
  low : Nat
  high : Nat

/-- Decodes what follows the bytes read so far. -/
def decodeFrom (offset : Nat) : Option Pending → List UInt8 → Except Fault (List Char)
  | none, [] => .ok []
  | some p, [] => .error ⟨p.first, p.start, offset - p.start, .cutOff⟩
  | none, b :: r =>
    match lead? b.toNat with
    | none => .error ⟨b, offset, 1, .badStart⟩
    | some ⟨bits, 0, _, _⟩ => (decodeFrom (offset + 1) none r).map (Char.ofNat bits :: ·)
    | some ⟨bits, following + 1, low, high⟩ =>
      decodeFrom (offset + 1) (some ⟨b, offset, bits, following + 1, low, high⟩) r
  | some p, b :: r =>
    if p.low ≤ b.toNat && b.toNat ≤ p.high then
      let bits := p.bits * 64 + (b.toNat - 0x80)
      if p.following ≤ 1 then (decodeFrom (offset + 1) none r).map (Char.ofNat bits :: ·)
      else decodeFrom (offset + 1) (some ⟨p.first, p.start, bits, p.following - 1, 0x80, 0xBF⟩) r
    else .error ⟨p.first, p.start, offset - p.start, .badContinuation⟩

/-- Decodes bytes, or reports the first fault. -/
def decode (bytes : List UInt8) : Except Fault (List Char) := decodeFrom 0 none bytes

/-- The bytes of a text. -/
def encode (s : String) : List UInt8 := s.toUTF8.toList

/-- The text with every line end written as one line feed: a carriage return, alone or with a line
feed after it, is one. -/
def lines : List Char → List Char
  | '\r' :: '\n' :: r => '\n' :: lines r
  | '\r' :: r => '\n' :: lines r
  | c :: r => c :: lines r
  | [] => []

end Mustache.Text.Utf8
