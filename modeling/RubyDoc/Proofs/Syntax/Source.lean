import RubyDoc.Proofs.Text.Utf8
import RubyDoc.Syntax.Source

/-!
# Positions in a source

A syntax tree says where a node is in bytes, an edit where it is in symbols.  For a source that was
read from any bytes, valid or not, the two measures agree: the byte offset of a symbol is taken back
to the symbol, and the bytes between two such offsets spell the symbols between them.  A cut between
two symbols may fall inside an invalid sequence of bytes; nothing is said about a cut inside a
symbol.
-/

namespace RubyDoc.Syntax.Source

open Utf8

/-- Where the bytes of the `k`-th symbol begin. -/
def byteOffset (s : Source) (k : Nat) : Nat :=
  (encode (s.text.take k)).length

variable (s : Source) {k m : Nat}

theorem bytes_eq_append (k : Nat) :
    s.bytes = encode (s.text.take k) ++ encode (s.text.drop k) := by
  rw [s.bytes_eq, ← encode_append, List.take_append_drop]

theorem take_byteOffset (k : Nat) : s.bytes.take (s.byteOffset k) = encode (s.text.take k) := by
  rw [s.bytes_eq_append k, byteOffset, List.take_left]

theorem drop_byteOffset (k : Nat) : s.bytes.drop (s.byteOffset k) = encode (s.text.drop k) := by
  rw [s.bytes_eq_append k, byteOffset, List.drop_left]

/-- The bytes between two symbols are those of the symbols between them. -/
theorem take_drop_byteOffset (h : k ≤ m) :
    (s.bytes.drop (s.byteOffset k)).take (s.byteOffset m - s.byteOffset k) =
      encode ((s.text.drop k).take (m - k)) := by
  have hbetween : s.text.take m = s.text.take k ++ (s.text.drop k).take (m - k) := by
    rw [← List.take_add, Nat.add_sub_cancel' h]
  have hlength : s.byteOffset m - s.byteOffset k =
      (encode ((s.text.drop k).take (m - k))).length := by
    unfold byteOffset
    rw [hbetween, encode_append, List.length_append]
    omega
  rw [drop_byteOffset, hlength, ← List.prefix_iff_eq_take.1 (encode_prefix_take _ _)]

/-- Where there are as many bytes as symbols, each symbol is one byte. -/
theorem byteOffset_eq (hlength : s.bytes.length = s.text.length) (hk : k ≤ s.text.length) :
    s.byteOffset k = k := by
  have htake := length_le_length_encode (s.text.take k)
  have hdrop := length_le_length_encode (s.text.drop k)
  have hall := congrArg List.length (s.bytes_eq_append k)
  rw [List.length_append] at hall
  rw [List.length_take] at htake
  rw [List.length_drop] at hdrop
  unfold byteOffset
  omega

section Settled

variable (hs : IsSettled s.text)
include hs

theorem length_decode_take (hk : k ≤ s.text.length) :
    (decode (s.bytes.take (s.byteOffset k))).length = k := by
  rw [take_byteOffset, decode_encode (hs.take k), List.length_take]
  omega

/-- Both ways to find a symbol lead to it. -/
theorem symbolOffset_byteOffset (hk : k ≤ s.text.length) :
    s.symbolOffset (s.byteOffset k) = k := by
  unfold symbolOffset
  split
  · rename_i hlength
    exact s.byteOffset_eq hlength hk
  · exact s.length_decode_take hs hk

theorem slice_byteOffset (h : k ≤ m) :
    s.slice (s.byteOffset k) (s.byteOffset m) = (s.text.drop k).take (m - k) := by
  unfold slice
  rw [s.take_drop_byteOffset h, decode_encode ((hs.drop k).take (m - k))]

end Settled

/-- **Bytes and symbols agree**, for every byte list: the source that is read from it has these
bytes; a symbol is found by its byte offset, also where that is the same number and nothing is read;
and the bytes between two symbols are read as the text between them. -/
theorem symbols_found_by_bytes (bytes : List UInt8) :
    (ofText (decode bytes)).bytes = bytes ∧
      ∀ k m, k ≤ m → m ≤ (decode bytes).length →
        (ofText (decode bytes)).symbolOffset ((ofText (decode bytes)).byteOffset k) = k ∧
        (decode (bytes.take ((ofText (decode bytes)).byteOffset k))).length = k ∧
        (ofText (decode bytes)).slice ((ofText (decode bytes)).byteOffset k)
            ((ofText (decode bytes)).byteOffset m) =
          ((decode bytes).drop k).take (m - k) := by
  have hbytes : (ofText (decode bytes)).bytes = bytes := encode_decode bytes
  have hsettled : IsSettled (ofText (decode bytes)).text := isSettled_decode bytes
  refine ⟨hbytes, ?_⟩
  intro k m hkm hm
  have hk : k ≤ (ofText (decode bytes)).text.length := Nat.le_trans hkm hm
  refine ⟨symbolOffset_byteOffset _ hsettled hk, ?_, slice_byteOffset _ hsettled hkm⟩
  have hread := length_decode_take _ hsettled hk
  rwa [hbytes] at hread

/-- A letter, two bytes of a sequence that is broken off by a stray byte, a character of two bytes
and the bytes of a surrogate. -/
def brokenBytes : List UInt8 :=
  [0x61, 0xE2, 0x82, 0xFF, 0xC3, 0xA9, 0xED, 0xA0, 0x80]

/-- The cut is inside the sequence that is broken off. -/
theorem symbols_found_by_bytes_broken :
    2 ≤ 5 ∧ 5 ≤ (decode brokenBytes).length ∧
      decode brokenBytes = [.char 'a', .byte 0xE2, .byte 0x82, .byte 0xFF, .char 'é', .byte 0xED,
        .byte 0xA0, .byte 0x80] ∧
      (ofText (decode brokenBytes)).byteOffset 5 = 6 ∧
      (ofText (decode brokenBytes)).bytes = brokenBytes ∧
      (ofText (decode brokenBytes)).symbolOffset ((ofText (decode brokenBytes)).byteOffset 2) = 2 ∧
      (ofText (decode brokenBytes)).slice ((ofText (decode brokenBytes)).byteOffset 2)
          ((ofText (decode brokenBytes)).byteOffset 5) = [.byte 0x82, .byte 0xFF, .char 'é'] := by
  have hlength : 5 ≤ (decode brokenBytes).length := by decide +kernel
  obtain ⟨hbytes, hagree⟩ := symbols_found_by_bytes brokenBytes
  obtain ⟨hfound, -, hread⟩ := hagree 2 5 (by decide) hlength
  refine ⟨by decide, hlength, by decide +kernel, by decide +kernel, hbytes, hfound, ?_⟩
  rw [hread]
  decide +kernel

end RubyDoc.Syntax.Source
