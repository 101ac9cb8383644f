import RubyDoc.Text.Basic
import RubyDoc.Text.Quoted
import RubyDoc.Text.Utf8

/-!
# Faults of an encoding

Where a sequence of bytes stops to be UTF-8, and why: a byte that begins nothing, a sequence that is
broken off by a byte of another kind, or one that the end cuts short.
-/

namespace RubyDoc.Utf8

/-- Why bytes are no UTF-8. -/
inductive Cause where
  | badStart | badContinuation | cutShort
  deriving DecidableEq, Repr

/-- A fault: the bytes concerned, where they start, and the cause. -/
structure Fault where
  bytes : List UInt8
  start : Nat
  cause : Cause
  deriving DecidableEq, Repr

/-- The bytes that may follow a first byte: for each place the lowest and the highest. -/
def followers (first : UInt8) : List (Nat × Nat) :=
  let a := first.toNat
  if 0xC2 ≤ a ∧ a < 0xE0 then [(0x80, 0xBF)]
  else if a = 0xE0 then [(0xA0, 0xBF), (0x80, 0xBF)]
  else if a = 0xED then [(0x80, 0x9F), (0x80, 0xBF)]
  else if 0xE0 ≤ a ∧ a < 0xF0 then [(0x80, 0xBF), (0x80, 0xBF)]
  else if a = 0xF0 then [(0x90, 0xBF), (0x80, 0xBF), (0x80, 0xBF)]
  else if a = 0xF4 then [(0x80, 0x8F), (0x80, 0xBF), (0x80, 0xBF)]
  else if 0xF0 ≤ a ∧ a < 0xF4 then [(0x80, 0xBF), (0x80, 0xBF), (0x80, 0xBF)]
  else []

/-- How many bytes fit the places that they should fill, and whether a byte is there that does
not. -/
def fitting : (places : List (Nat × Nat)) → List UInt8 → Nat × Bool
  | [], _ => (0, false)
  | _ :: _, [] => (0, false)
  | (low, high) :: places, b :: bytes =>
      if low ≤ b.toNat ∧ b.toNat ≤ high then
        let (n, broken) := fitting places bytes
        (n + 1, broken)
      else (0, true)

/-- The fault that bytes begin with, given that they begin with no character. -/
def faultAt (start : Nat) (first : UInt8) (rest : List UInt8) : Fault :=
  match followers first with
  | [] => ⟨[first], start, .badStart⟩
  | places =>
      let (n, broken) := fitting places rest
      ⟨first :: rest.take n, start, if broken then .badContinuation else .cutShort⟩

/-- The first fault of bytes that start at an offset; `skip` of them belong to a character. -/
def firstFaultFrom? : (start : Nat) → (skip : Nat) → List UInt8 → Option Fault
  | _, _, [] => none
  | start, skip + 1, _ :: rest => firstFaultFrom? (start + 1) skip rest
  | start, 0, b :: rest =>
      match leadingChar? (b :: rest) with
      | some (_, more) => firstFaultFrom? (start + 1) more rest
      | none => some (faultAt start b rest)

/-- The first fault of a sequence of bytes. -/
def firstFault? (bytes : List UInt8) : Option Fault :=
  firstFaultFrom? 0 0 bytes

/-- The wording of a cause. -/
def Cause.wording : Cause → Text
  | badStart => "invalid start byte"
  | badContinuation => "invalid continuation byte"
  | cutShort => "unexpected end of data"

/-- The wording of a fault. -/
def Fault.message (f : Fault) : Text :=
  let where_ : Text := match f.bytes with
    | [b] => "byte 0x" ++ Text.hexDigits 2 b.toNat ++ " in position " ++ Text.ofNat f.start
    | bytes =>
        "bytes in position " ++ Text.ofNat f.start ++ "-" ++
          Text.ofNat (f.start + bytes.length - 1)
  "'utf-8' codec can't decode " ++ where_ ++ ": " ++ f.cause.wording

end RubyDoc.Utf8
