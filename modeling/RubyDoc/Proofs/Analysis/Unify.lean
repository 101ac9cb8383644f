import Mathlib.Tactic.Common
import RubyDoc.Analysis.Result

/-!
# Two types that meet

The rule for two branch types, case by case: equal types stay (`unify_of_eq`), a type that meets
`nil` becomes optional (`unify_nil_left`, `unify_nil_right`), and any other pair gives the fallback
type (`unify_of_ne`).  The rule does not look inside a type, so an optional type is for it a type
like any other: it may become optional once more.
-/

namespace RubyDoc.Analysis

/-- Is the type written as that of a value that may be `nil`, in either style? -/
def isOptional (t : Text) : Bool :=
  t.endsWith "?" || t.endsWith ", nil"

variable {style : ResultStyle}

/-! ## Optional types -/

theorem isOptional_optionalType (style : ResultStyle) (t : Text) :
    isOptional (optionalType style t) = true := by
  have hends : ∀ mark : Text, Text.endsWith (t ++ mark) mark = true := fun mark =>
    List.isSuffixOf_iff_suffix.2 (List.suffix_append t mark)
  rw [isOptional, optionalType, Bool.or_eq_true]
  split
  · exact .inl (hends _)
  · rw [List.append_assoc]
    exact .inr (hends _)

theorem optionalType_inj {a b : Text} : optionalType style a = optionalType style b ↔ a = b := by
  rw [optionalType, optionalType]
  split
  · exact List.append_left_inj _
  · rw [List.append_assoc, List.append_assoc]
    exact List.append_left_inj _

theorem length_lt_length_optionalType (style : ResultStyle) (t : Text) :
    t.length < (optionalType style t).length := by
  rw [optionalType]
  split
  · simp [Text.ofString]
  · simp [Text.ofString]

theorem optionalType_ne_self (t : Text) : optionalType style t ≠ t := fun h => by
  have hlt := length_lt_length_optionalType style t
  rw [h] at hlt
  omega

theorem optionalType_ne_nil (t : Text) : optionalType style t ≠ [] := fun h => by
  have hlt := length_lt_length_optionalType style t
  rw [h] at hlt
  simp at hlt

/-- No optional type is `nil` itself. -/
theorem optionalType_ne_nilType (t : Text) : optionalType style t ≠ nilType := fun h => by
  have hoptional := isOptional_optionalType style t
  rw [h] at hoptional
  exact absurd hoptional (by decide)

/-! ## Missing types -/

theorem orFallback_of_ne (fallback : Text) {t : Text} (h : t ≠ []) :
    orFallback fallback (some t) = t := by
  cases t with
  | nil => exact absurd rfl h
  | cons c t => rfl

@[simp] theorem orFallback_fallback (fallback : Text) :
    orFallback fallback (some fallback) = fallback := by
  cases fallback <;> rfl

@[simp] theorem orFallback_orFallback (fallback : Text) (a : Option Text) :
    orFallback fallback (some (orFallback fallback a)) = orFallback fallback a := by
  rcases a with _ | _ | ⟨c, t⟩
  · exact orFallback_fallback fallback
  · exact orFallback_fallback fallback
  · rfl

theorem orFallback_optionalType (fallback t : Text) :
    orFallback fallback (some (optionalType style t)) = optionalType style t :=
  orFallback_of_ne fallback (optionalType_ne_nil t)

/-! ## The rule -/

section Unify

variable {a b : Option Text}

theorem unify_of_eq (h : orFallback style.fallback a = orFallback style.fallback b) :
    unify style a b = orFallback style.fallback a :=
  if_pos h

theorem unify_nil_left (ha : orFallback style.fallback a = nilType)
    (hb : orFallback style.fallback b ≠ nilType) :
    unify style a b = optionalType style (orFallback style.fallback b) := by
  simp only [unify, ha]
  rw [if_neg (Ne.symm hb)]
  rfl

theorem unify_nil_right (ha : orFallback style.fallback a ≠ nilType)
    (hb : orFallback style.fallback b = nilType) :
    unify style a b = optionalType style (orFallback style.fallback a) := by
  simp only [unify, hb]
  rw [if_neg ha, if_neg ha]
  rfl

theorem unify_of_ne (h : orFallback style.fallback a ≠ orFallback style.fallback b)
    (ha : orFallback style.fallback a ≠ nilType) (hb : orFallback style.fallback b ≠ nilType) :
    unify style a b = style.fallback := by
  simp only [unify]
  rw [if_neg h, if_neg ha, if_neg hb]

/-- All that two types can give. -/
theorem unify_cases (style : ResultStyle) (a b : Option Text) :
    (orFallback style.fallback a = orFallback style.fallback b ∧
        unify style a b = orFallback style.fallback a) ∨
      (orFallback style.fallback a = nilType ∧ orFallback style.fallback b ≠ nilType ∧
        unify style a b = optionalType style (orFallback style.fallback b)) ∨
      (orFallback style.fallback a ≠ nilType ∧ orFallback style.fallback b = nilType ∧
        unify style a b = optionalType style (orFallback style.fallback a)) ∨
      (orFallback style.fallback a ≠ orFallback style.fallback b ∧
        orFallback style.fallback a ≠ nilType ∧ orFallback style.fallback b ≠ nilType ∧
        unify style a b = style.fallback) := by
  by_cases h : orFallback style.fallback a = orFallback style.fallback b
  · exact .inl ⟨h, unify_of_eq h⟩
  by_cases ha : orFallback style.fallback a = nilType
  · have hb : orFallback style.fallback b ≠ nilType := fun hb => h (ha.trans hb.symm)
    exact .inr (.inl ⟨ha, hb, unify_nil_left ha hb⟩)
  by_cases hb : orFallback style.fallback b = nilType
  · exact .inr (.inr (.inl ⟨ha, hb, unify_nil_right ha hb⟩))
  · exact .inr (.inr (.inr ⟨h, ha, hb, unify_of_ne h ha hb⟩))

/-- A missing type meets another as the fallback type does. -/
theorem unify_orFallback (a b : Option Text) :
    unify style (some (orFallback style.fallback a)) (some (orFallback style.fallback b)) =
      unify style a b := by
  simp only [unify, orFallback_orFallback]

/-- Which of the two types comes first makes no difference. -/
theorem unify_comm (a b : Option Text) : unify style a b = unify style b a := by
  rcases unify_cases style a b with ⟨h, heq⟩ | ⟨ha, hb, heq⟩ | ⟨ha, hb, heq⟩ | ⟨h, ha, hb, heq⟩
  · rw [heq, unify_of_eq h.symm, h]
  · rw [heq, unify_nil_right hb ha]
  · rw [heq, unify_nil_left hb ha]
  · rw [heq, unify_of_ne (Ne.symm h) hb ha]

/-- Two types give no missing type. -/
theorem orFallback_unify (style : ResultStyle) (a b : Option Text) :
    orFallback style.fallback (some (unify style a b)) = unify style a b := by
  rcases unify_cases style a b with ⟨-, heq⟩ | ⟨-, -, heq⟩ | ⟨-, -, heq⟩ | ⟨-, -, -, heq⟩
  · rw [heq, orFallback_orFallback]
  · rw [heq, orFallback_optionalType]
  · rw [heq, orFallback_optionalType]
  · rw [heq, orFallback_fallback]

end Unify

end RubyDoc.Analysis
