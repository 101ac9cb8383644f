import Mathlib.Data.List.Induction
import Mathlib.Data.List.Nodup

/-!
# First occurrences

Erasing the duplicates of a list keeps each element where it occurs first
(`eraseDups_eq_firstOccurrences`).  What has occurred before may be added without any effect.
-/

namespace RubyDoc

/-- The elements of a list that do not occur before. -/
def firstOccurrences {α : Type} [BEq α] (l : List α) : List α :=
  (l.zipIdx.filter fun e => !(l.take e.2).contains e.1).map Prod.fst

section Distinct

variable {α : Type} [BEq α] [LawfulBEq α]

theorem firstOccurrences_concat (l : List α) (a : α) :
    firstOccurrences (l ++ [a]) = firstOccurrences l ++ if l.contains a then [] else [a] := by
  have hbefore : l.zipIdx.filter (fun e => !((l ++ [a]).take e.2).contains e.1) =
      l.zipIdx.filter fun e => !(l.take e.2).contains e.1 := by
    refine List.filter_congr fun e he => ?_
    obtain ⟨-, hlt, -⟩ := List.mem_zipIdx he
    rw [List.take_append_of_le_length (by omega)]
  rw [firstOccurrences, List.zipIdx_append, List.filter_append, hbefore, List.map_append,
    firstOccurrences]
  by_cases ha : a ∈ l <;> simp [ha]

theorem eraseDups_eq_firstOccurrences (l : List α) : l.eraseDups = firstOccurrences l := by
  induction l using List.reverseRecOn with
  | nil => rfl
  | append_singleton l a ih =>
      rw [List.eraseDups_append, firstOccurrences_concat, ih]
      by_cases ha : a ∈ l <;> simp [ha, List.removeAll, List.eraseDups_cons]

theorem nodup_eraseDups (l : List α) : l.eraseDups.Nodup := by
  match l with
  | [] => exact List.nodup_nil
  | a :: l =>
      have hlt : (l.filter fun b => !b == a).length < l.length + 1 :=
        Nat.lt_succ_of_le (List.length_filter_le _ l)
      rw [List.eraseDups_cons, List.nodup_cons]
      exact ⟨by simp [List.mem_eraseDups], nodup_eraseDups _⟩
termination_by l.length

theorem eraseDups_append_of_subset {above added : List α} (h : added ⊆ above) (below : List α) :
    (above ++ (added ++ below)).eraseDups = (above ++ below).eraseDups := by
  have hnone : added.removeAll above = [] :=
    List.filter_eq_nil_iff.2 fun c hc => by simpa using h hc
  have hrest : (added ++ below).removeAll above = below.removeAll above := by
    rw [List.removeAll, List.filter_append]
    exact congrArg (· ++ below.removeAll above) hnone
  rw [List.eraseDups_append, List.eraseDups_append, hrest]

end Distinct

end RubyDoc
