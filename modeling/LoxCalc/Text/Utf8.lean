import LoxCalc.Text.Quoted

/-!
# UTF-8

Decoding of octets into characters, strict and with the place of the first fault.  A first octet
announces how many continuation octets follow and between which bounds the next one lies; those
bounds exclude overlong forms, surrogates and code points beyond the last plane.

A fault covers the octets of the sequence that were sound up to it, at least one.
-/

namespace LoxCalc.Text.Utf8

/-- Why a sequence of octets cannot be decoded. -/
inductive Reason
  | badStart
  | badContinuation
  | truncated
  deriving DecidableEq

/-- The first sequence that cannot be decoded: its first octet, the positions it covers, and the
reason. -/
structure Malformed where
  octet : Nat
  first : Nat
  last : Nat
  reason : Reason
  deriving DecidableEq

/-- The wording of a reason. -/
def Reason.text : Reason → String
  | badStart => "invalid start byte"
  | badContinuation => "invalid continuation byte"
  | truncated => "unexpected end of data"

/-- The wording of a fault. -/
def Malformed.message (m : Malformed) : String :=
  "'utf-8' codec can't decode "
    ++ (if m.first = m.last then
          "byte 0x" ++ String.ofList (hexDigits 2 m.octet) ++ " in position " ++ toString m.first
        else "bytes in position " ++ toString m.first ++ "-" ++ toString m.last)
    ++ ": " ++ m.reason.text

/-- What a first octet announces: the continuation octets owed, the bounds of the next one, and the
bits it carries itself. -/
structure Lead where
  owed : Nat
  low : Nat
  high : Nat
  bits : Nat

/-- The announcement of a first octet, if it can be one. -/
def lead? (b : Nat) : Option Lead :=
  if b < 0x80 then some ⟨0, 0x80, 0xbf, b⟩
  else if b < 0xc2 then none
  else if b < 0xe0 then some ⟨1, 0x80, 0xbf, b - 0xc0⟩
  else if b < 0xf0 then
    some ⟨2, if b = 0xe0 then 0xa0 else 0x80, if b = 0xed then 0x9f else 0xbf, b - 0xe0⟩
  else if b < 0xf5 then
    some ⟨3, if b = 0xf0 then 0x90 else 0x80, if b = 0xf4 then 0x8f else 0xbf, b - 0xf0⟩
  else none

/-- Reads the octets still owed; `sound` counts those of the sequence read so far.  The result is
the code point, or the reason of a fault with the number of octets that it covers. -/
def continuation : Nat → Nat → Nat → Nat → Nat → List UInt8 → Except (Reason × Nat) Nat
  | 0, _, _, code, _, _ => .ok code
  | _ + 1, _, _, _, sound, [] => .error (.truncated, sound)
  | owed + 1, low, high, code, sound, b :: bs =>
    if low ≤ b.toNat ∧ b.toNat ≤ high then
      continuation owed 0x80 0xbf (code * 64 + (b.toNat - 0x80)) (sound + 1) bs
    else .error (.badContinuation, sound)

/-- Decodes from position `pos` on, after the next `skip` octets, which belong to the character read
last. -/
def decodeFrom (pos skip : Nat) (read : List Char) : List UInt8 → Except Malformed (List Char)
  | [] => .ok read.reverse
  | b :: bs =>
    if 0 < skip then decodeFrom (pos + 1) (skip - 1) read bs
    else match lead? b.toNat with
      | none => .error ⟨b.toNat, pos, pos, .badStart⟩
      | some l =>
        match continuation l.owed l.low l.high l.bits 1 bs with
        | .error (reason, sound) => .error ⟨b.toNat, pos, pos + sound - 1, reason⟩
        | .ok code => decodeFrom (pos + 1) l.owed (Char.ofNat code :: read) bs

/-- Decodes octets into characters. -/
def decode (octets : List UInt8) : Except Malformed (List Char) :=
  decodeFrom 0 0 [] octets

end LoxCalc.Text.Utf8
