import Ostinato.Text.Quoted

/-!
# UTF-8

Bytes are decoded to characters by the well-formed sequences of UTF-8: no overlong form, no
surrogate, nothing above `U+10FFFF`. The first fault ends the decoding and is located. A sequence that the
end cuts short is no fault yet.
-/

namespace Ostinato.Utf8

inductive Reason where
  | invalidStart
  | invalidContinuation
  | unexpectedEnd
deriving DecidableEq, Repr

/-- The bytes `start` to `start + length - 1` cannot be decoded; `byte` is the first of them. -/
structure Fault where
  start : Nat
  length : Nat
  byte : UInt8
  reason : Reason
deriving DecidableEq, Repr

def Reason.text : Reason → String
  | invalidStart => "invalid start byte"
  | invalidContinuation => "invalid continuation byte"
  | unexpectedEnd => "unexpected end of data"

def Fault.message (f : Fault) : String :=
  if f.length = 1 then
    s!"'utf-8' codec can't decode byte 0x{Text.hex 2 f.byte.toNat} in position {f.start}: {f.reason.text}"
  else
    s!"'utf-8' codec can't decode bytes in position {f.start}-{f.start + f.length - 1}: {f.reason.text}"

/-- The form of a sequence by its first byte: the bits of that byte, and the range of each further byte. -/
structure Form where
  bits : Nat
  ranges : List (Nat × Nat)

/-- A first byte decides how many bytes follow, and narrows the range of the second one. -/
def form? (b : UInt8) : Option Form :=
  let n := b.toNat
  let tail : Nat × Nat := (0x80, 0xBF)
  if n < 0x80 then some ⟨n, []⟩
  else if n < 0xC2 then none
  else if n < 0xE0 then some ⟨n - 0xC0, [tail]⟩
  else if n = 0xE0 then some ⟨0, [(0xA0, 0xBF), tail]⟩
  else if n = 0xED then some ⟨0xD, [(0x80, 0x9F), tail]⟩
  else if n < 0xF0 then some ⟨n - 0xE0, [tail, tail]⟩
  else if n = 0xF0 then some ⟨0, [(0x90, 0xBF), tail, tail]⟩
  else if n < 0xF4 then some ⟨n - 0xF0, [tail, tail, tail]⟩
  else if n = 0xF4 then some ⟨4, [(0x80, 0x8F), tail, tail]⟩
  else none

/-- How a sequence goes on after its first byte: its number, or where and why it breaks off.
A break is given with the number of further bytes that fit. -/
def continuation (bits fitted : Nat) : List (Nat × Nat) → List UInt8 → Except (Nat × Reason) Nat
  | [], _ => .ok bits
  | _ :: _, [] => .error (fitted, .unexpectedEnd)
  | (low, high) :: ranges, b :: rest =>
    if low ≤ b.toNat ∧ b.toNat ≤ high then
      continuation (bits * 64 + (b.toNat - 0x80)) (fitted + 1) ranges rest
    else .error (fitted, .invalidContinuation)

/-- Decodes from a position on; `skip` further bytes belong to the character before. The bytes of a
sequence that the end cuts short are left over. -/
def decodeFrom (position skip : Nat) (out : List Char) : List UInt8 → Except Fault (List Char × List UInt8)
  | [] => .ok (out.reverse, [])
  | b :: rest =>
    if 0 < skip then decodeFrom (position + 1) (skip - 1) out rest
    else match form? b with
      | none => .error ⟨position, 1, b, .invalidStart⟩
      | some f =>
        match continuation f.bits 0 f.ranges rest with
        | .ok n => decodeFrom (position + 1) f.ranges.length (Char.ofNat n :: out) rest
        | .error (_, .unexpectedEnd) => .ok (out.reverse, b :: rest)
        | .error (fitted, reason) => .error ⟨position, fitted + 1, b, reason⟩

def decode (bytes : List UInt8) : Except Fault (List Char × List UInt8) := decodeFrom 0 0 [] bytes

/-- The fault of bytes that are left over when nothing follows. -/
def cutShort (b : UInt8) (rest : List UInt8) : Fault := ⟨0, rest.length + 1, b, .unexpectedEnd⟩

end Ostinato.Utf8
