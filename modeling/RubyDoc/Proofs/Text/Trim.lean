import Mathlib.Data.List.DropRight
import Mathlib.Tactic.Common
import RubyDoc.Text.Basic
import RubyDoc.Text.CharClass

/-!
# White space at the ends of a text

Trimming takes off exactly the white space around a text, and a text that neither begins nor ends
with white space is left as it is.  No symbol of a word and no digit is white space.
-/

namespace RubyDoc

/-! ## Words and white space -/

namespace Text

/-- Two lists of closed intervals without a common number. -/
theorem inRanges_eq_false_of_disjoint {as bs : List (Nat × Nat)}
    (h : ∀ a ∈ as, ∀ b ∈ bs, a.2 < b.1 ∨ b.2 < a.1) {n : Nat} (hn : inRanges as n) :
    inRanges bs n = false := by
  rw [inRanges, List.any_eq_true] at hn
  obtain ⟨a, ha, hn⟩ := hn
  rw [inRanges, List.any_eq_false]
  intro b hb
  have hdisjoint := h a ha b hb
  simp only [Bool.and_eq_true, decide_eq_true_eq] at hn ⊢
  omega

/-- No white space is found among the characters from `!` on that are in ASCII, nor among others
that are not in the table. -/
theorem isBlankChar_eq_false {c : Char} (hascii : c.toNat < 0x80 → 33 ≤ c.toNat)
    (hwide : ¬ c.toNat < 0x80 → inRanges wideBlankRanges c.toNat = false) :
    isBlankChar c = false := by
  rw [isBlankChar]
  by_cases h : c.toNat < 0x80
  · have hcode := hascii h
    simp only [h, if_true, Bool.or_eq_false_iff, Bool.and_eq_false_iff, decide_eq_false_iff_not]
    omega
  · simp only [h, if_false, hwide h]

end Text

namespace Sym

open Text

theorem isBlank_eq_false_of_isDigit {s : Sym} (h : s.isDigit) : s.isBlank = false := by
  cases s with
  | byte b => cases h
  | char c =>
      change isDigitChar c = true at h
      rw [isDigitChar] at h
      refine isBlankChar_eq_false (fun hascii => ?_) (fun hwide => ?_)
      · rw [if_pos hascii, Char.isDigit, Bool.and_eq_true, decide_eq_true_eq] at h
        exact Nat.le_trans (by decide) h.1
      · rw [if_neg hwide] at h
        exact inRanges_eq_false_of_disjoint (by decide +kernel) h

theorem isBlank_eq_false_of_isWord {s : Sym} (h : s.isWord) : s.isBlank = false := by
  cases s with
  | byte b => cases h
  | char c =>
      change isWordChar c = true at h
      rw [isWordChar] at h
      refine isBlankChar_eq_false (fun hascii => ?_) (fun hwide => ?_)
      · rw [if_pos hascii, Bool.or_eq_true, beq_iff_eq, Char.isAlphanum, Bool.or_eq_true] at h
        unfold Char.isAlpha Char.isUpper Char.isLower at h
        simp only [Char.isDigit, Bool.or_eq_true, Bool.and_eq_true, decide_eq_true_eq] at h
        rcases h with ((h | h) | h) | rfl
        · exact Nat.le_trans (by decide) h.1
        · exact Nat.le_trans (by decide) h.1
        · exact Nat.le_trans (by decide) h.1
        · decide
      · rw [if_neg hwide] at h
        exact inRanges_eq_false_of_disjoint (by decide +kernel) h

theorem isWord_of_isNameStart {s : Sym} (h : s.isNameStart) : s.isWord := by
  cases s with
  | byte b => cases h
  | char c =>
      change (c.isAlpha || c == '_') = true at h
      have hletter := h
      unfold Char.isAlpha Char.isUpper Char.isLower at hletter
      simp only [Bool.or_eq_true, beq_iff_eq, Bool.and_eq_true, decide_eq_true_eq] at hletter
      have hascii : c.toNat < 0x80 := by
        rcases hletter with (hletter | hletter) | rfl
        · exact Nat.lt_of_le_of_lt hletter.2 (by decide)
        · exact Nat.lt_of_le_of_lt hletter.2 (by decide)
        · decide
      show isWordChar c = true
      rw [isWordChar, if_pos hascii, Char.isAlphanum, Bool.or_right_comm, h, Bool.true_or]

end Sym

/-! ## Trimming -/

namespace Text

theorem isBlank_append (s t : Text) : isBlank (s ++ t) = (isBlank s && isBlank t) :=
  List.all_append

theorem trimLeft_append (s t : Text) :
    trimLeft (s ++ t) = if isBlank s then trimLeft t else trimLeft s ++ t := by
  rw [trimLeft, List.dropWhile_append]
  by_cases h : isBlank s
  · have hnil : s.dropWhile Sym.isBlank = [] :=
      List.dropWhile_eq_nil_iff.2 (List.all_eq_true.1 h)
    simp [h, hnil, trimLeft]
  · have hne : s.dropWhile Sym.isBlank ≠ [] := fun hnil =>
      h (List.all_eq_true.2 (List.dropWhile_eq_nil_iff.1 hnil))
    simp [h, hne, trimLeft]

theorem trimLeft_of_head {t : Text} (h : ∀ s, t.head? = some s → s.isBlank = false) :
    trimLeft t = t := by
  cases t with
  | nil => rfl
  | cons s t => rw [trimLeft, List.dropWhile_cons, h s rfl, if_neg Bool.false_ne_true]

theorem trimRight_of_last {t : Text} (h : ∀ s, t.getLast? = some s → s.isBlank = false) :
    trimRight t = t := by
  have hrev : t.reverse.dropWhile Sym.isBlank = t.reverse :=
    trimLeft_of_head fun s hs => h s (by rwa [List.head?_reverse] at hs)
  rw [trimRight, hrev, List.reverse_reverse]

theorem trim_of_not_blank {t : Text} (h : ∀ s ∈ t, s.isBlank = false) : trim t = t := by
  rw [trim, trimLeft_of_head fun s hs => h s (List.mem_of_mem_head? hs),
    trimRight_of_last fun s hs => h s (List.mem_of_getLast? hs)]

theorem trimRight_append (t u : Text) :
    trimRight (t ++ u) = if isBlank u then trimRight t else t ++ trimRight u := by
  have hblank : isBlank u.reverse = isBlank u := List.all_reverse
  have hrev := trimLeft_append u.reverse t.reverse
  rw [hblank, ← List.reverse_append] at hrev
  show (trimLeft (t ++ u).reverse).reverse = _
  by_cases h : isBlank u
  · rw [hrev, if_pos h, if_pos h]
    rfl
  · rw [hrev, if_neg h, if_neg h, List.reverse_append, List.reverse_reverse]
    rfl

theorem trim_append_left {w : Text} (h : isBlank w) (t : Text) : trim (w ++ t) = trim t := by
  rw [trim, trimLeft_append, if_pos h, trim]

theorem trim_append_right {w : Text} (h : isBlank w) (t : Text) : trim (t ++ w) = trim t := by
  rw [trim, trimLeft_append, trim]
  by_cases ht : isBlank t
  · have hnil : trimLeft t = [] := List.dropWhile_eq_nil_iff.2 (List.all_eq_true.1 ht)
    have hw : trimLeft w = [] := List.dropWhile_eq_nil_iff.2 (List.all_eq_true.1 h)
    rw [if_pos ht, hnil, hw]
  · rw [if_neg ht, trimRight_append, if_pos h]

/-! ## Trimmed texts -/

/-- Not empty, and without white space at the ends. -/
structure IsTrimmed (t : Text) : Prop where
  ne_nil : t ≠ []
  head : ∀ s, t.head? = some s → s.isBlank = false
  last : ∀ s, t.getLast? = some s → s.isBlank = false

namespace IsTrimmed

variable {t u : Text}

theorem trim_eq (h : IsTrimmed t) : trim t = t := by
  rw [trim, trimLeft_of_head h.head, trimRight_of_last h.last]

/-- Whatever stands between two trimmed texts. -/
theorem append (ht : IsTrimmed t) (hu : IsTrimmed u) (middle : Text) :
    IsTrimmed (t ++ middle ++ u) where
  ne_nil := by simp [ht.ne_nil]
  head s hs := by
    rw [List.append_assoc, List.head?_append_of_ne_nil _ ht.ne_nil] at hs
    exact ht.head s hs
  last s hs := by
    rw [List.getLast?_append_of_ne_nil _ hu.ne_nil] at hs
    exact hu.last s hs

theorem singleton {s : Sym} (h : s.isBlank = false) : IsTrimmed [s] where
  ne_nil := List.cons_ne_nil _ _
  head c hc := by rwa [← Option.some.inj hc]
  last c hc := by rwa [← Option.some.inj hc]

theorem of_not_blank (hne : t ≠ []) (h : ∀ s ∈ t, s.isBlank = false) : IsTrimmed t :=
  ⟨hne, fun s hs => h s (List.mem_of_mem_head? hs), fun s hs => h s (List.mem_of_getLast? hs)⟩

/-- Between two symbols that are no white space. -/
theorem between {a b : Sym} (ha : a.isBlank = false) (hb : b.isBlank = false) (middle : Text) :
    IsTrimmed (a :: (middle ++ [b])) :=
  (singleton ha).append (singleton hb) middle

end IsTrimmed

theorem head_trimLeft {t : Text} {s : Sym} (h : (trimLeft t).head? = some s) :
    s.isBlank = false := by
  induction t with
  | nil => cases h
  | cons c t ih =>
      rw [trimLeft, List.dropWhile_cons] at h
      split at h
      · exact ih h
      · rename_i hc
        obtain rfl := Option.some.inj h
        simpa using hc

theorem isTrimmed_trim {t : Text} (h : trim t ≠ []) : IsTrimmed (trim t) where
  ne_nil := h
  head s hs := by
    obtain ⟨w, hw⟩ : trim t <+: trimLeft t := List.rdropWhile_prefix _ _
    refine head_trimLeft (t := t) ?_
    rwa [← hw, List.head?_append_of_ne_nil _ h]
  last s hs := by
    have hlast := List.rdropWhile_last_not Sym.isBlank (trimLeft t) h
    rw [List.getLast?_eq_some_getLast h] at hs
    rw [← Option.some.inj hs]
    exact Bool.eq_false_iff.2 hlast

/-- A text is what trimming leaves and white space around it. -/
theorem exists_eq_append_trim (t : Text) :
    ∃ left right, isBlank left ∧ isBlank right ∧ t = left ++ trim t ++ right := by
  refine ⟨t.takeWhile Sym.isBlank, ((trimLeft t).reverse.takeWhile Sym.isBlank).reverse,
    List.all_takeWhile, ?_, ?_⟩
  · rw [isBlank, List.all_reverse]
    exact List.all_takeWhile
  · have hright : trim t ++ ((trimLeft t).reverse.takeWhile Sym.isBlank).reverse = trimLeft t := by
      rw [trim, trimRight, ← List.reverse_append, List.takeWhile_append_dropWhile,
        List.reverse_reverse]
    rw [List.append_assoc, hright, trimLeft, List.takeWhile_append_dropWhile]

theorem trim_ne_nil {t : Text} (h : isBlank t = false) : trim t ≠ [] := by
  obtain ⟨left, right, hleft, hright, heq⟩ := exists_eq_append_trim t
  intro hnil
  rw [hnil, List.append_nil] at heq
  rw [heq, isBlank_append, hleft, hright] at h
  cases h

/-- A text that starts with a trimmed one is trimmed only in what follows that. -/
theorem exists_trim_append {first : Text} (hfirst : IsTrimmed first) (middle : Text) {t : Text}
    (ht : isBlank t = false) :
    ∃ w, isBlank w ∧ trim (first ++ middle ++ t) = first ++ (middle ++ w) ++ trim t := by
  obtain ⟨left, right, hleft, hright, heq⟩ := exists_eq_append_trim t
  refine ⟨left, hleft, ?_⟩
  calc trim (first ++ middle ++ t)
      = trim (first ++ (middle ++ left) ++ trim t ++ right) := by
        conv_lhs => rw [heq]
        simp only [List.append_assoc]
    _ = first ++ (middle ++ left) ++ trim t := by
        rw [trim_append_right hright]
        exact (hfirst.append (isTrimmed_trim (trim_ne_nil ht)) _).trim_eq

theorem last_trimRight {t : Text} {s : Sym} (h : (trimRight t).getLast? = some s) :
    s.isBlank = false := by
  rw [trimRight, List.getLast?_reverse] at h
  exact head_trimLeft h

theorem exists_eq_trimRight_append (t : Text) : ∃ w, isBlank w ∧ t = trimRight t ++ w := by
  refine ⟨(t.reverse.takeWhile Sym.isBlank).reverse, ?_, ?_⟩
  · rw [isBlank, List.all_reverse]
    exact List.all_takeWhile
  · rw [trimRight, ← List.reverse_append, List.takeWhile_append_dropWhile, List.reverse_reverse]

theorem notMem_trimRight {t : Text} {s : Sym} (h : s ∉ t) : s ∉ trimRight t := by
  obtain ⟨w, -, hw⟩ := exists_eq_trimRight_append t
  rw [hw, List.mem_append, not_or] at h
  exact h.1

/-- Behind a trimmed text only the end is trimmed. -/
theorem IsTrimmed.trim_append {t : Text} (ht : IsTrimmed t) (u : Text) :
    trim (t ++ u) = t ++ trimRight u := by
  have hhead (s : Sym) (hs : (t ++ u).head? = some s) : s.isBlank = false := by
    rw [List.head?_append_of_ne_nil _ ht.ne_nil] at hs
    exact ht.head s hs
  rw [trim, trimLeft_of_head hhead, trimRight_append]
  split
  · rename_i hblank
    have hnil := trimRight_append [] u
    rw [if_pos hblank] at hnil
    rw [show trimRight u = [] from hnil, List.append_nil, trimRight_of_last ht.last]
  · rfl

@[simp] theorem trim_trim (t : Text) : trim (trim t) = trim t := by
  by_cases h : trim t = []
  · rw [h]
    rfl
  · exact (isTrimmed_trim h).trim_eq

end Text

end RubyDoc
