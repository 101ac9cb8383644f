import RubyDoc.Proofs.Text.LineView
import RubyDoc.Text.CharClass

/-!
# The records of closed lines

A reader of records takes more symbols for the end of a line than the line feed.  Lines that have
none of them come back from the text that they make up when each is closed by a line feed.
-/

namespace RubyDoc.Text

/-- Whatever ends a record is white space. -/
theorem isBlankChar_of_isBreakChar {c : Char} (h : isBreakChar c) : isBlankChar c := by
  simp only [isBreakChar, Bool.or_eq_true, Bool.and_eq_true, decide_eq_true_eq, beq_iff_eq] at h
  rw [isBlankChar]
  by_cases hascii : c.toNat < 0x80
  · simp only [hascii, if_true, Bool.or_eq_true, Bool.and_eq_true, decide_eq_true_eq]
    omega
  · rw [if_neg hascii, inRanges, List.any_eq_true]
    rcases h with (((h | h) | h) | h) | h
    · omega
    · omega
    · exact ⟨(0x85, 0x85), by decide, by simp [h]⟩
    · exact ⟨(0x2028, 0x2029), by decide, by simp [h]⟩
    · exact ⟨(0x2028, 0x2029), by decide, by simp [h]⟩

/-- Does no symbol of the text end a record? -/
def IsUnbroken (t : Text) : Prop :=
  ∀ s ∈ t, s.satisfies isBreakChar = false

instance (t : Text) : Decidable (IsUnbroken t) :=
  inferInstanceAs (Decidable (∀ s ∈ t, _))

theorem isUnbroken_of_not_blank {t : Text} (h : ∀ s ∈ t, s.isBlank = false) : IsUnbroken t := by
  intro s hs
  cases s with
  | byte b => rfl
  | char c =>
      refine Bool.eq_false_iff.2 fun hbreak => ?_
      have hblank : (Sym.char c).isBlank = true := isBlankChar_of_isBreakChar hbreak
      rw [h _ hs] at hblank
      cases hblank

theorem recordsFrom_cons {current : Text} {s : Sym} (hs : s.satisfies isBreakChar = false)
    {t : Text} (ht : t ≠ []) : recordsFrom current (s :: t) = recordsFrom (s :: current) t := by
  obtain ⟨r, rest, rfl⟩ := List.exists_cons_of_ne_nil ht
  have hreturn : ¬ (s = .carriageReturn ∧ r = .lineFeed) := by
    rintro ⟨rfl, -⟩
    cases hs
  rw [recordsFrom, if_neg hreturn, hs, if_neg Bool.false_ne_true]

theorem recordsFrom_lineFeed (current t : Text) :
    recordsFrom current (.lineFeed :: t) = current.reverse :: recordsFrom [] t := by
  cases t with
  | nil => rfl
  | cons r t => rfl

theorem recordsFrom_append {l : Text} (hl : IsUnbroken l) (current t : Text) :
    recordsFrom current (l ++ .lineFeed :: t) = (current.reverse ++ l) :: recordsFrom [] t := by
  induction l generalizing current with
  | nil => rw [List.nil_append, recordsFrom_lineFeed, List.append_nil]
  | cons s l ih =>
      obtain ⟨hs, hl⟩ := List.forall_mem_cons.1 hl
      rw [List.cons_append, recordsFrom_cons hs (by simp), ih hl, List.reverse_cons,
        List.append_assoc]
      rfl

/-- Unbroken lines come back as the records of the closed lines. -/
theorem records_closed {ls : List Text} (h : ∀ l ∈ ls, IsUnbroken l) :
    (closed ls).records = ls := by
  induction ls with
  | nil => rfl
  | cons l ls ih =>
      obtain ⟨hl, hls⟩ := List.forall_mem_cons.1 h
      rw [closed_cons, records, recordsFrom_append hl]
      exact congrArg (l :: ·) (ih hls)

end RubyDoc.Text
