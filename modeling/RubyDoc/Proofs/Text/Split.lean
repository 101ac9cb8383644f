import Mathlib.Data.List.Basic
import RubyDoc.Text.Basic

/-!
# Pieces of a text

Splitting at a symbol and joining with it undo each other: every text is its pieces joined, and
pieces without the symbol come back from the joined text.
-/

namespace RubyDoc.Text

variable {sep : Sym}

theorem splitOn_ne_nil (sep : Sym) (t : Text) : splitOn sep t ≠ [] := by
  cases t with
  | nil => simp [splitOn]
  | cons s t =>
      rw [splitOn]
      split
      · simp
      · split <;> simp

theorem splitOn_sep (sep : Sym) (t : Text) : splitOn sep (sep :: t) = [] :: splitOn sep t := by
  rw [splitOn, if_pos rfl]

theorem splitOn_cons {s : Sym} (hs : s ≠ sep) {t piece : Text} {pieces : List Text}
    (ht : splitOn sep t = piece :: pieces) : splitOn sep (s :: t) = (s :: piece) :: pieces := by
  rw [splitOn, if_neg hs, ht]

theorem join_cons (sep t : Text) {ts : List Text} (hts : ts ≠ []) :
    join sep (t :: ts) = t ++ sep ++ join sep ts := by
  obtain ⟨u, us, rfl⟩ := List.exists_cons_of_ne_nil hts
  rfl

theorem join_splitOn (sep : Sym) (t : Text) : join [sep] (splitOn sep t) = t := by
  induction t with
  | nil => rfl
  | cons s t ih =>
      by_cases hs : s = sep
      · rw [hs, splitOn_sep, join_cons [sep] [] (splitOn_ne_nil sep t), ih]
        rfl
      · obtain ⟨piece, pieces, hpieces⟩ := List.exists_cons_of_ne_nil (splitOn_ne_nil sep t)
        rw [splitOn_cons hs hpieces]
        rw [hpieces] at ih
        cases pieces with
        | nil => exact congrArg (s :: ·) ih
        | cons next pieces =>
            rw [join_cons _ _ (by simp)] at ih ⊢
            rw [List.cons_append, List.cons_append, ih]

theorem notMem_of_mem_splitOn {t piece : Text} (h : piece ∈ splitOn sep t) : sep ∉ piece := by
  induction t generalizing piece with
  | nil =>
      have hnil : piece = [] := by simpa [splitOn] using h
      simp [hnil]
  | cons s t ih =>
      by_cases hs : s = sep
      · rw [hs, splitOn_sep] at h
        rcases List.mem_cons.1 h with rfl | h
        · simp
        · exact ih h
      · obtain ⟨first, pieces, hpieces⟩ := List.exists_cons_of_ne_nil (splitOn_ne_nil sep t)
        rw [splitOn_cons hs hpieces] at h
        rcases List.mem_cons.1 h with rfl | h
        · have hfirst : sep ∉ first := ih (by simp [hpieces])
          simp [hfirst, Ne.symm hs]
        · exact ih (by simp [hpieces, h])

theorem splitOn_of_notMem {t : Text} (h : sep ∉ t) : splitOn sep t = [t] := by
  induction t with
  | nil => rfl
  | cons s t ih =>
      rw [List.mem_cons, not_or] at h
      exact splitOn_cons (Ne.symm h.1) (ih h.2)

theorem splitOn_append_sep {piece : Text} (h : sep ∉ piece) (t : Text) :
    splitOn sep (piece ++ sep :: t) = piece :: splitOn sep t := by
  induction piece with
  | nil => exact splitOn_sep sep t
  | cons s piece ih =>
      rw [List.mem_cons, not_or] at h
      exact splitOn_cons (Ne.symm h.1) (ih h.2)

/-- Pieces without the symbol come back from the joined text. -/
theorem splitOn_join {ts : List Text} (hne : ts ≠ []) (h : ∀ t ∈ ts, sep ∉ t) :
    splitOn sep (join [sep] ts) = ts := by
  induction ts with
  | nil => exact absurd rfl hne
  | cons t ts ih =>
      obtain ⟨ht, hts⟩ := List.forall_mem_cons.1 h
      by_cases hnil : ts = []
      · rw [hnil]
        exact splitOn_of_notMem ht
      · rw [join_cons [sep] t hnil, List.append_assoc, List.singleton_append,
          splitOn_append_sep ht, ih hnil hts]

end RubyDoc.Text
