import Mathlib.Data.List.Forall2
import Mathlib.Data.Option.Basic

/-!
# Lists of related nodes

Two trees are compared node by node, along lists of children that are related one by one.  What
chooses among children by something that related nodes share chooses related children.
-/

namespace RubyDoc.Syntax

variable {α : Type} {R : α → α → Prop}

theorem rel_find? {p : α → Bool} (hp : ∀ a b, R a b → p b = p a) {as bs : List α}
    (h : List.Forall₂ R as bs) : Option.Rel R (as.find? p) (bs.find? p) := by
  induction h with
  | nil => exact .none
  | @cons a b as bs hab _ ih =>
      rw [List.find?_cons, List.find?_cons, hp a b hab]
      split
      · exact .some hab
      · exact ih

theorem forall₂_filter {p : α → Bool} (hp : ∀ a b, R a b → p b = p a) {as bs : List α}
    (h : List.Forall₂ R as bs) : List.Forall₂ R (as.filter p) (bs.filter p) :=
  List.rel_filter (fun a b hab => by simp only [hp a b hab]) h

theorem map_eq_of_forall₂ {β : Type} {f g : α → β} (hfg : ∀ a b, R a b → g b = f a)
    {as bs : List α} (h : List.Forall₂ R as bs) : bs.map g = as.map f := by
  induction h with
  | nil => rfl
  | @cons a b _ _ hab _ ih => rw [List.map_cons, List.map_cons, ih, hfg a b hab]

theorem map_eq_of_rel {β : Type} {f g : α → β} (hfg : ∀ a b, R a b → g b = f a) {a b : Option α}
    (h : Option.Rel R a b) : b.map g = a.map f := by
  cases h with
  | none => rfl
  | some hab => rw [Option.map_some, Option.map_some, hfg _ _ hab]

theorem isNone_eq_of_rel {a b : Option α} (h : Option.Rel R a b) : b.isNone = a.isNone := by
  cases h <;> rfl

theorem isEmpty_eq_of_forall₂ {as bs : List α} (h : List.Forall₂ R as bs) :
    bs.isEmpty = as.isEmpty := by
  cases h <;> rfl

theorem eq_none_of_rel {a b : Option α} (h : Option.Rel R a b) (ha : a = none) : b = none := by
  cases h with
  | none => rfl
  | some => cases ha

theorem exists_of_rel {a b : Option α} (h : Option.Rel R a b) {x : α} (ha : a = some x) :
    ∃ y, b = some y ∧ R x y := by
  cases h with
  | none => cases ha
  | some hxy => exact ⟨_, rfl, Option.some.inj ha ▸ hxy⟩

theorem rel_head? {as bs : List α} (h : List.Forall₂ R as bs) : Option.Rel R as.head? bs.head? := by
  cases h with
  | nil => exact .none
  | cons hab _ => exact .some hab

theorem forall₂_toList {a b : Option α} (h : Option.Rel R a b) :
    List.Forall₂ R a.toList b.toList := by
  cases h with
  | none => exact .nil
  | some hxy => exact .cons hxy .nil

theorem flatMap_eq_of_forall₂ {β : Type} {f g : α → List β} {as bs : List α}
    (hfg : ∀ a ∈ as, ∀ b, R a b → g b = f a) (h : List.Forall₂ R as bs) :
    bs.flatMap g = as.flatMap f := by
  induction h with
  | nil => rfl
  | @cons a b as bs hab _ ih =>
      obtain ⟨ha, has⟩ := List.forall_mem_cons.1 hfg
      rw [List.flatMap_cons, List.flatMap_cons, ha b hab, ih has]

theorem forall₂_eraseP {p : α → Bool} (hp : ∀ a b, R a b → p b = p a) {as bs : List α}
    (h : List.Forall₂ R as bs) : List.Forall₂ R (as.eraseP p) (bs.eraseP p) := by
  induction h with
  | nil => exact .nil
  | @cons a b as bs hab hrest ih =>
      cases ha : p a with
      | true =>
          rw [List.eraseP_cons_of_pos ha, List.eraseP_cons_of_pos ((hp a b hab).trans ha)]
          exact hrest
      | false =>
          rw [List.eraseP_cons_of_neg (by simp [ha]),
            List.eraseP_cons_of_neg (by simp [hp a b hab, ha])]
          exact .cons hab ih

/-- Something is erased from two related lists in the same half of both, whatever stands between
the halves. -/
theorem exists_eraseP_append {p : α → Bool} (hp : ∀ a b, R a b → p b = p a) {as as' bs bs' : List α}
    (has : List.Forall₂ R as as') (hbs : List.Forall₂ R bs bs') :
    ∃ rest rest', List.Forall₂ R rest rest' ∧ ∀ between, (∀ c ∈ between, p c = false) →
      (as ++ (between ++ bs)).eraseP p = as.eraseP p ++ (between ++ rest) ∧
      (as' ++ (between ++ bs')).eraseP p = as'.eraseP p ++ (between ++ rest') := by
  induction has with
  | nil =>
      refine ⟨_, _, forall₂_eraseP hp hbs, fun between hbetween => ?_⟩
      have hnot : ∀ c ∈ between, ¬ p c := fun c hc => by simp [hbetween c hc]
      exact ⟨List.eraseP_append_right _ hnot, List.eraseP_append_right _ hnot⟩
  | @cons a a' as as' ha has ih =>
      cases hpa : p a with
      | true =>
          have hpa' := (hp a a' ha).trans hpa
          refine ⟨bs, bs', hbs, fun between _ => ?_⟩
          rw [List.cons_append, List.cons_append, List.eraseP_cons_of_pos hpa,
            List.eraseP_cons_of_pos hpa', List.eraseP_cons_of_pos hpa,
            List.eraseP_cons_of_pos hpa']
          exact ⟨rfl, rfl⟩
      | false =>
          have hnot : ¬ p a := by simp [hpa]
          have hnot' : ¬ p a' := by simp [hp a a' ha, hpa]
          obtain ⟨rest, rest', hrest, herase⟩ := ih
          refine ⟨rest, rest', hrest, fun between hbetween => ?_⟩
          obtain ⟨hl, hr⟩ := herase between hbetween
          rw [List.cons_append, List.cons_append, List.eraseP_cons_of_neg hnot,
            List.eraseP_cons_of_neg hnot', List.eraseP_cons_of_neg hnot,
            List.eraseP_cons_of_neg hnot', hl, hr]
          exact ⟨rfl, rfl⟩

end RubyDoc.Syntax
