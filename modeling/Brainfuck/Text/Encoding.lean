/-!
# Byte encodings of text

Texts as bytes: UTF-8, where the first byte that cannot stand in a text is reported with the reason,
and Latin-1, where every byte is a character.
-/

namespace Brainfuck.Text

inductive Utf8Fault where
  | invalidStart
  | invalidContinuation
  | unexpectedEnd
  deriving DecidableEq

/-- The place and the reason of a failure to read UTF-8: the bytes from `start` on, `length` of
them, of which `first` is the first. -/
structure Utf8Failure where
  start : Nat
  length : Nat
  first : UInt8
  fault : Utf8Fault
  deriving DecidableEq

def Utf8Fault.message : Utf8Fault → String
  | invalidStart => "invalid start byte"
  | invalidContinuation => "invalid continuation byte"
  | unexpectedEnd => "unexpected end of data"

def hexByte (b : UInt8) : List Char :=
  [Nat.digitChar (b.toNat / 16), Nat.digitChar (b.toNat % 16)]

def Utf8Failure.message (failure : Utf8Failure) : String :=
  let place :=
    if failure.length = 1 then
      s!"byte 0x{String.ofList (hexByte failure.first)} in position {failure.start}"
    else s!"bytes in position {failure.start}-{failure.start + failure.length - 1}"
  s!"'utf-8' codec can't decode {place}: {failure.fault.message}"

/-- What the first byte of a longer sequence demands: how many bytes follow, the least and the
greatest second byte, and the bits it contributes itself. Overlong sequences, surrogates and numbers
beyond Unicode are ruled out by the bounds on the second byte. -/
structure Lead where
  following : Nat
  low : Nat
  high : Nat
  bits : Nat

def Lead.ofByte? (b : UInt8) : Option Lead :=
  let n := b.toNat
  if n < 0xc2 then none
  else if n < 0xe0 then some ⟨1, 0x80, 0xbf, n - 0xc0⟩
  else if n < 0xf0 then
    some ⟨2, if n = 0xe0 then 0xa0 else 0x80, if n = 0xed then 0x9f else 0xbf, n - 0xe0⟩
  else if n < 0xf5 then
    some ⟨3, if n = 0xf0 then 0x90 else 0x80, if n = 0xf4 then 0x8f else 0xbf, n - 0xf0⟩
  else none

/-- Read `following` more bytes, the first of them between `low` and `high`, behind `used` bytes that
gave the number `bits`. On failure tell the number of good bytes and the reason. -/
def continueSequence : (following used low high bits : Nat) → List UInt8 →
    Except (Nat × Utf8Fault) (Nat × List UInt8)
  | 0, _, _, _, bits, bytes => .ok (bits, bytes)
  | _ + 1, used, _, _, _, [] => .error (used, .unexpectedEnd)
  | following + 1, used, low, high, bits, b :: bytes =>
    if low ≤ b.toNat ∧ b.toNat ≤ high then
      continueSequence following (used + 1) 0x80 0xbf (bits * 0x40 + (b.toNat - 0x80)) bytes
    else .error (used, .invalidContinuation)

/-- Read bytes from position `start` on, where `done` holds the characters before, last first. Every
character uses up a byte at least, so the number of bytes is fuel enough. -/
def decodeUtf8From : (fuel start : Nat) → (done : List Char) → List UInt8 →
    Except Utf8Failure (List Char)
  | 0, _, done, _ => .ok done.reverse
  | _ + 1, _, done, [] => .ok done.reverse
  | fuel + 1, start, done, b :: bytes =>
    if b.toNat < 0x80 then decodeUtf8From fuel (start + 1) (Char.ofNat b.toNat :: done) bytes
    else match Lead.ofByte? b with
      | none => .error ⟨start, 1, b, .invalidStart⟩
      | some lead =>
        match continueSequence lead.following 1 lead.low lead.high lead.bits bytes with
        | .error (used, fault) => .error ⟨start, used, b, fault⟩
        | .ok (number, rest) =>
          decodeUtf8From fuel (start + 1 + lead.following) (Char.ofNat number :: done) rest

def decodeUtf8 (bytes : List UInt8) : Except Utf8Failure (List Char) :=
  decodeUtf8From bytes.length 0 [] bytes

def encodeUtf8 (s : List Char) : List UInt8 :=
  (String.ofList s).toUTF8.toList

def decodeLatin1 (bytes : List UInt8) : List Char :=
  bytes.map fun b => Char.ofNat b.toNat

end Brainfuck.Text
