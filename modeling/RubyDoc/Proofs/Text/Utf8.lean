import Mathlib.Tactic.Common
import RubyDoc.Text.Utf8

/-!
# Bytes and symbols

Every byte list is the encoding of the text that is read from it (`encode_decode`).  The converse
fails: stray bytes that make up the encoding of a character are read as that character.  A text is
settled if this happens nowhere in it.  What is read from bytes is settled, parts of a settled text
are settled, and a settled text is read back from its bytes (`decode_encode`), so that a byte list
may be read in parts as long as no symbol is cut.
-/

namespace RubyDoc.Utf8

/-! ## The first character -/

theorem toNat_val_lt (c : Char) : c.val.toNat < 0x110000 := by
  rcases c.valid with h | h
  · exact Nat.lt_trans h (by decide)
  · exact h.2

/-- The bytes of a character spell it, whatever follows them. -/
theorem leadingCode_append (c : Char) (rest : List UInt8) :
    leadingCode (String.utf8EncodeChar c ++ rest) = c.toNat := by
  have hbound := toNat_val_lt c
  show _ = c.val.toNat
  unfold String.utf8EncodeChar
  generalize c.val.toNat = v at *
  dsimp only
  -- One case for each number of bytes; the first byte says which one it is.
  split
  · have hfirst : v % 256 = v := by omega
    simp [leadingCode, hfirst]
    omega
  split
  · have hfirst : (v / 64 % 32 + 192) % 256 = v / 64 % 32 + 192 := by omega
    have hrange : ¬ v / 64 % 32 + 192 < 128 ∧ v / 64 % 32 + 192 < 224 := by omega
    simp [leadingCode, tailBits, hfirst, hrange]
    omega
  split
  · have hfirst : (v / 4096 % 16 + 224) % 256 = v / 4096 % 16 + 224 := by omega
    have hrange : ¬ v / 4096 % 16 + 224 < 128 ∧ ¬ v / 4096 % 16 + 224 < 224 ∧
        v / 4096 % 16 + 224 < 240 := by omega
    simp [leadingCode, tailBits, hfirst, hrange]
    omega
  · have hfirst : (v / 262144 % 8 + 240) % 256 = v / 262144 % 8 + 240 := by omega
    have hrange : ¬ v / 262144 % 8 + 240 < 128 ∧ ¬ v / 262144 % 8 + 240 < 224 ∧
        ¬ v / 262144 % 8 + 240 < 240 := by omega
    simp [leadingCode, tailBits, hfirst, hrange]
    omega

theorem utf8EncodeChar_ne_nil (c : Char) : String.utf8EncodeChar c ≠ [] := by
  unfold String.utf8EncodeChar
  dsimp only
  split
  · simp
  split
  · simp
  split <;> simp

/-- A character is recognised exactly where its bytes stand. -/
theorem leadingChar?_eq_some_iff {bytes : List UInt8} {c : Char} {more : Nat} :
    leadingChar? bytes = some (c, more) ↔
      String.utf8EncodeChar c <+: bytes ∧ more = (String.utf8EncodeChar c).length - 1 := by
  unfold leadingChar?
  dsimp only
  constructor
  · intro h
    split at h
    · rename_i hbegins
      obtain ⟨rfl, rfl⟩ := Prod.mk.inj (Option.some.inj h)
      exact ⟨List.isPrefixOf_iff_prefix.1 hbegins, rfl⟩
    · cases h
  · rintro ⟨⟨rest, rfl⟩, rfl⟩
    rw [leadingCode_append, Char.ofNat_toNat,
      if_pos (List.isPrefixOf_iff_prefix.2 (List.prefix_append _ _))]

/-- Where no character begins, none begins if there are fewer bytes. -/
theorem leadingChar?_eq_none_of_fewer {bytes fewer : List UInt8} (h : leadingChar? bytes = none)
    (hfewer : fewer <+: bytes) : leadingChar? fewer = none := by
  cases hread : leadingChar? fewer with
  | none => rfl
  | some read =>
      obtain ⟨c, more⟩ := read
      obtain ⟨hbegins, hmore⟩ := leadingChar?_eq_some_iff.1 hread
      rw [leadingChar?_eq_some_iff.2 ⟨hbegins.trans hfewer, hmore⟩] at h
      cases h

/-! ## Reading -/

theorem decodeFrom_append (skipped rest : List UInt8) :
    decodeFrom (skipped ++ rest) skipped.length = decode rest := by
  induction skipped with
  | nil => rfl
  | cons b skipped ih => exact ih

theorem decode_char_append (c : Char) (rest : List UInt8) :
    decode (String.utf8EncodeChar c ++ rest) = .char c :: decode rest := by
  have hread : leadingChar? (String.utf8EncodeChar c ++ rest) =
      some (c, (String.utf8EncodeChar c).length - 1) :=
    leadingChar?_eq_some_iff.2 ⟨List.prefix_append _ _, rfl⟩
  obtain ⟨b, more, hcode⟩ := List.exists_cons_of_ne_nil (utf8EncodeChar_ne_nil c)
  rw [hcode, List.cons_append] at hread ⊢
  unfold decode
  rw [decodeFrom, hread]
  exact congrArg (Sym.char c :: ·) (decodeFrom_append more rest)

theorem decode_byte_cons {b : UInt8} {rest : List UInt8} (h : leadingChar? (b :: rest) = none) :
    decode (b :: rest) = .byte b :: decode rest := by
  unfold decode
  rw [decodeFrom, h]

/-! ## Settled texts -/

/-- No stray byte begins, together with the bytes after it, the encoding of a character. -/
def IsSettled : Text → Prop
  | [] => True
  | .char _ :: t => IsSettled t
  | .byte b :: t => leadingChar? (b :: encode t) = none ∧ IsSettled t

theorem encode_cons (s : Sym) (t : Text) : encode (s :: t) = encodeSym s ++ encode t := by
  simp [encode]

theorem encode_append (t u : Text) : encode (t ++ u) = encode t ++ encode u := by
  simp [encode]

theorem encodeSym_ne_nil (s : Sym) : encodeSym s ≠ [] := by
  cases s with
  | char c => exact utf8EncodeChar_ne_nil c
  | byte b => simp [encodeSym]

/-- A settled text is read back. -/
theorem decode_encode {t : Text} (h : IsSettled t) : decode (encode t) = t := by
  induction t with
  | nil => rfl
  | cons s t ih =>
      rw [encode_cons]
      cases s with
      | char c => rw [encodeSym, decode_char_append, ih h]
      | byte b => rw [encodeSym, List.singleton_append, decode_byte_cons h.1, ih h.2]

/-- What is read from bytes is settled, and they are its encoding. -/
theorem isSettled_decode_and_encode (bytes : List UInt8) :
    IsSettled (decode bytes) ∧ encode (decode bytes) = bytes := by
  -- By induction on the number of bytes, since a character takes up to four of them.
  induction hn : bytes.length using Nat.strongRecOn generalizing bytes with
  | ind n ih =>
  cases bytes with
  | nil => exact ⟨trivial, rfl⟩
  | cons b rest =>
      cases hread : leadingChar? (b :: rest) with
      | none =>
          obtain ⟨hsettled, hencode⟩ := ih rest.length (by simp [← hn]) rest rfl
          rw [decode_byte_cons hread]
          refine ⟨⟨?_, hsettled⟩, ?_⟩
          · rw [hencode]
            exact hread
          · rw [encode_cons, hencode]
            rfl
      | some read =>
          obtain ⟨c, more⟩ := read
          obtain ⟨⟨after, hafter⟩, -⟩ := leadingChar?_eq_some_iff.1 hread
          have hpos := List.length_pos_iff.2 (utf8EncodeChar_ne_nil c)
          have hshorter : after.length < n := by
            rw [← hn, ← hafter, List.length_append]
            omega
          obtain ⟨hsettled, hencode⟩ := ih after.length hshorter after rfl
          rw [← hafter, decode_char_append]
          refine ⟨hsettled, ?_⟩
          rw [encode_cons, hencode]
          rfl

theorem isSettled_decode (bytes : List UInt8) : IsSettled (decode bytes) :=
  (isSettled_decode_and_encode bytes).1

/-- Every byte list comes back from the text that is read from it. -/
theorem encode_decode (bytes : List UInt8) : encode (decode bytes) = bytes :=
  (isSettled_decode_and_encode bytes).2

theorem IsSettled.drop {t : Text} (h : IsSettled t) (k : Nat) : IsSettled (t.drop k) := by
  induction t generalizing k with
  | nil => simpa using h
  | cons s t ih =>
      cases k with
      | zero => exact h
      | succ k =>
          cases s with
          | char c => exact ih h k
          | byte b => exact ih h.2 k

theorem encode_prefix_take (t : Text) (k : Nat) : encode (t.take k) <+: encode t := by
  refine ⟨encode (t.drop k), ?_⟩
  rw [← encode_append, List.take_append_drop]

theorem IsSettled.take {t : Text} (h : IsSettled t) (k : Nat) : IsSettled (t.take k) := by
  induction t generalizing k with
  | nil => simpa using h
  | cons s t ih =>
      cases k with
      | zero => exact trivial
      | succ k =>
          cases s with
          | char c => exact ih h k
          | byte b =>
              -- With what follows `b` cut off, still no character begins at `b`.
              have hfewer : b :: encode (t.take k) <+: b :: encode t :=
                List.cons_prefix_cons.2 ⟨rfl, encode_prefix_take t k⟩
              exact ⟨leadingChar?_eq_none_of_fewer h.1 hfewer, ih h.2 k⟩

/-! ## Lengths -/

/-- Every symbol has a byte at least. -/
theorem length_le_length_encode (t : Text) : t.length ≤ (encode t).length := by
  induction t with
  | nil => simp
  | cons s t ih =>
      have hpos := List.length_pos_iff.2 (encodeSym_ne_nil s)
      rw [encode_cons, List.length_append, List.length_cons]
      omega

end RubyDoc.Utf8
