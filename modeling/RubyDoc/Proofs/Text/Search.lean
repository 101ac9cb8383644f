import Mathlib.Data.List.Basic
import RubyDoc.Text.Basic

/-!
# Beginnings and places of a text

What it means that a text begins with another one, and that a search which tries every place of a
text from the left finds something.  The first place that answers decides, so a beginning without
answers may be passed over.
-/

namespace RubyDoc.Text

theorem after?_eq_some_iff {head t rest : Text} :
    after? head t = some rest ↔ t = head ++ rest := by
  induction head generalizing t with
  | nil => simp [after?]
  | cons a head ih =>
      cases t with
      | nil => simp [after?]
      | cons b t =>
          rw [after?]
          split
          · rename_i hab
            rw [ih, hab, List.cons_append, List.cons_eq_cons]
            simp
          · rename_i hab
            simp [Ne.symm hab]

@[simp] theorem after?_append (head rest : Text) : after? head (head ++ rest) = some rest :=
  after?_eq_some_iff.2 rfl

theorem after?_eq_none_of_head {s : Sym} {t : Text} (h : t.head? ≠ some s) (head : Text) :
    after? (s :: head) t = none := by
  cases hafter : after? (s :: head) t with
  | none => rfl
  | some rest => exact absurd (by rw [after?_eq_some_iff.1 hafter]; rfl) h

/-- What follows a beginning is followed by whatever is added at the end. -/
theorem after?_append_right {head t rest : Text} (h : after? head t = some rest) (more : Text) :
    after? head (t ++ more) = some (rest ++ more) := by
  rw [after?_eq_some_iff] at h ⊢
  rw [h, List.append_assoc]

theorem startsWith_iff {t head : Text} : t.startsWith head ↔ ∃ rest, t = head ++ rest := by
  rw [startsWith, List.isPrefixOf_iff_prefix]
  exact ⟨fun ⟨rest, h⟩ => ⟨rest, h.symm⟩, fun ⟨rest, h⟩ => ⟨rest, h.symm⟩⟩

theorem drop_length_takeWhile {α : Type} (p : α → Bool) (l : List α) :
    l.drop (l.takeWhile p).length = l.dropWhile p := by
  calc l.drop (l.takeWhile p).length
      = (l.takeWhile p ++ l.dropWhile p).drop (l.takeWhile p).length := by
        rw [List.takeWhile_append_dropWhile]
    _ = l.dropWhile p := List.drop_left

/-! ## Searching from the left -/

section findSome

variable {α : Type} {f : Text → Option α}

theorem findSome?_isSome_iff {t : Text} :
    (findSome? f t).isSome ↔ ∃ before rest, t = before ++ rest ∧ (f rest).isSome := by
  induction t with
  | nil => simp [findSome?]
  | cons s t ih =>
      rw [findSome?]
      cases hs : f (s :: t) with
      | some a => exact iff_of_true rfl ⟨[], s :: t, rfl, by rw [hs]; rfl⟩
      | none =>
          show (findSome? f t).isSome ↔ _
          rw [ih]
          constructor
          · rintro ⟨before, rest, rfl, h⟩
            exact ⟨s :: before, rest, rfl, h⟩
          · rintro ⟨before, rest, heq, h⟩
            cases before with
            | nil =>
                rw [List.nil_append] at heq
                rw [← heq, hs] at h
                cases h
            | cons r before => exact ⟨before, rest, (List.cons.inj heq).2, h⟩

/-- Places that give no answer are passed over. -/
theorem findSome?_append_of_none {before rest : Text}
    (h : ∀ u v, before = u ++ v → v ≠ [] → f (v ++ rest) = none) :
    findSome? f (before ++ rest) = findSome? f rest := by
  induction before with
  | nil => rfl
  | cons s before ih =>
      have hs : f (s :: (before ++ rest)) = none := h [] (s :: before) rfl (by simp)
      rw [List.cons_append, findSome?, hs, ih fun u v huv => h (s :: u) v (by rw [huv]; rfl)]
      rfl

/-- An answer at the first place is the answer. -/
theorem findSome?_of_eq_some {t : Text} {a : α} (h : f t = some a) : findSome? f t = some a := by
  cases t with
  | nil => exact h
  | cons s t => rw [findSome?, h]; rfl

end findSome

theorem contains_iff {t part : Text} :
    t.contains part ↔ ∃ before rest, t = before ++ part ++ rest := by
  rw [contains, findSome?_isSome_iff]
  constructor
  · rintro ⟨before, rest, rfl, h⟩
    obtain ⟨more, hmore⟩ := Option.isSome_iff_exists.1 h
    exact ⟨before, more, by rw [after?_eq_some_iff.1 hmore, List.append_assoc]⟩
  · rintro ⟨before, rest, rfl⟩
    exact ⟨before, part ++ rest, by rw [List.append_assoc], by simp⟩

end RubyDoc.Text
