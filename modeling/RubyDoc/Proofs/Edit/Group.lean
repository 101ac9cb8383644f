import Mathlib.Data.List.Basic
import RubyDoc.Edit.Plan

/-!
# The lines of plans for one range

What becomes of the lines of several plans that share a range: no line comes from elsewhere but the
empty comment lines between blocks, and no line is lost but empty comment lines.
-/

namespace RubyDoc.Edit

open Comment

/-- The empty comment line that a plan puts before its block. -/
def Plan.separator (p : Plan) : Text :=
  p.indent ++ [Sym.char '#']

theorem mem_stackBlocks {plans : List Plan} {line : Text} (h : line ∈ stackBlocks plans) :
    ∃ p ∈ plans, line ∈ p.lines ∨ line = p.separator := by
  cases plans with
  | nil => cases h
  | cons first rest =>
      rw [stackBlocks, List.mem_append, List.mem_flatMap] at h
      rcases h with h | ⟨p, hp, h⟩
      · exact ⟨first, List.mem_cons_self, Or.inl h⟩
      · exact ⟨p, List.mem_cons_of_mem _ hp, (List.mem_cons.1 h).symm⟩

theorem mem_stackBlocks_of_mem {plans : List Plan} {p : Plan} (hp : p ∈ plans) {line : Text}
    (h : line ∈ p.lines) : line ∈ stackBlocks plans := by
  cases plans with
  | nil => cases hp
  | cons first rest =>
      rw [stackBlocks, List.mem_append, List.mem_flatMap]
      rcases List.mem_cons.1 hp with rfl | hp
      · exact Or.inl h
      · exact Or.inr ⟨p, hp, List.mem_cons_of_mem _ h⟩

theorem mem_addJoining {lines joining : List Text} {line : Text}
    (h : line ∈ addJoining lines joining) : line ∈ lines ∨ line ∈ joining := by
  rw [addJoining, List.mem_append] at h
  refine h.imp_right fun h => ?_
  split at h
  · exact List.mem_of_mem_drop h
  · exact h

theorem mem_addJoining_left {lines joining : List Text} {line : Text} (h : line ∈ lines) :
    line ∈ addJoining lines joining :=
  List.mem_append_left _ h

/-- The only line that is lost is an empty comment line. -/
theorem mem_addJoining_right {lines joining : List Text} {line : Text} (h : line ∈ joining)
    (hline : isEmptyComment line = false) : line ∈ addJoining lines joining := by
  rw [addJoining]
  refine List.mem_append_right _ ?_
  split
  · rename_i hmeets
    cases joining with
    | nil => cases h
    | cons first rest =>
        rcases List.mem_cons.1 h with rfl | h
        · rw [List.head?_cons, Option.any_some, hline, Bool.and_false] at hmeets
          cases hmeets
        · exact h
  · exact h

theorem mem_foldl_addJoining {plans : List Plan} {blocks : List Text} {line : Text}
    (h : line ∈ plans.foldl (fun acc p => addJoining acc p.lines) blocks) :
    line ∈ blocks ∨ ∃ p ∈ plans, line ∈ p.lines := by
  induction plans generalizing blocks with
  | nil => exact Or.inl h
  | cons p plans ih =>
      rcases ih h with h | ⟨q, hq, h⟩
      · exact (mem_addJoining h).imp_right fun h => ⟨p, List.mem_cons_self, h⟩
      · exact Or.inr ⟨q, List.mem_cons_of_mem _ hq, h⟩

theorem mem_foldl_addJoining_of_mem {plans : List Plan} {blocks : List Text} {line : Text}
    (hline : isEmptyComment line = false)
    (h : line ∈ blocks ∨ ∃ p ∈ plans, line ∈ p.lines) :
    line ∈ plans.foldl (fun acc p => addJoining acc p.lines) blocks := by
  induction plans generalizing blocks with
  | nil =>
      rcases h with h | ⟨p, hp, -⟩
      · exact h
      · cases hp
  | cons p plans ih =>
      refine ih ?_
      rcases h with h | ⟨q, hq, h⟩
      · exact Or.inl (mem_addJoining_left h)
      · rcases List.mem_cons.1 hq with rfl | hq
        · exact Or.inl (mem_addJoining_right h hline)
        · exact Or.inr ⟨q, hq, h⟩

theorem mem_foldl_addJoining_left {plans : List Plan} {blocks : List Text} {line : Text}
    (h : line ∈ blocks) : line ∈ plans.foldl (fun acc p => addJoining acc p.lines) blocks := by
  induction plans generalizing blocks with
  | nil => exact h
  | cons p plans ih => exact ih (mem_addJoining_left h)

/-- Where the lines of a group come from. -/
theorem mem_groupLines {plans : List Plan} {line : Text} (h : line ∈ groupLines plans) :
    ∃ p ∈ plans, line ∈ p.lines ∨ line = p.separator ∨ line ∈ p.kept := by
  rw [groupLines, List.mem_append] at h
  rcases h with h | h
  · rcases mem_foldl_addJoining h with h | ⟨p, hp, h⟩
    · obtain ⟨p, hp, h⟩ := mem_stackBlocks h
      exact ⟨p, List.mem_of_mem_filter hp, h.imp_right Or.inl⟩
    · exact ⟨p, List.mem_of_mem_filter hp, Or.inl h⟩
  · cases hfind : plans.find? (fun p => !p.kept.isEmpty) with
    | none =>
        rw [hfind] at h
        cases h
    | some p =>
        rw [hfind] at h
        exact ⟨p, List.mem_of_find?_eq_some hfind, Or.inr (Or.inr h)⟩

/-- Plans that keep the same lines keep them once. -/
theorem kept_eq_of_forall {plans : List Plan} {kept : List Text} (hne : plans ≠ [])
    (h : ∀ p ∈ plans, p.kept = kept) :
    ((plans.find? fun p => !p.kept.isEmpty).map Plan.kept).getD [] = kept := by
  cases hfind : plans.find? (fun p => !p.kept.isEmpty) with
  | some p =>
      rw [Option.map_some, Option.getD_some]
      exact h p (List.mem_of_find?_eq_some hfind)
  | none =>
      obtain ⟨p, hp⟩ := List.exists_mem_of_ne_nil plans hne
      have hempty := List.find?_eq_none.1 hfind p hp
      rw [h p hp] at hempty
      simpa using hempty

/-- A group is new lines, and below them the lines that its plans keep. -/
theorem groupLines_eq_append_kept {plans : List Plan} {kept : List Text} (hne : plans ≠ [])
    (h : ∀ p ∈ plans, p.kept = kept) :
    ∃ new, groupLines plans = new ++ kept ∧
      ∀ line ∈ new, ∃ p ∈ plans, line ∈ p.lines ∨ line = p.separator := by
  refine ⟨_, by rw [groupLines, kept_eq_of_forall hne h], fun line hline => ?_⟩
  rcases mem_foldl_addJoining hline with hline | ⟨p, hp, hline⟩
  · obtain ⟨p, hp, hline⟩ := mem_stackBlocks hline
    exact ⟨p, List.mem_of_mem_filter hp, hline⟩
  · exact ⟨p, List.mem_of_mem_filter hp, Or.inl hline⟩

/-- Lines that say something are in the group. -/
theorem mem_groupLines_of_mem {plans : List Plan} {p : Plan} (hp : p ∈ plans) {line : Text}
    (hline : line ∈ p.lines) (hspeaks : isEmptyComment line = false) : line ∈ groupLines plans := by
  rw [groupLines]
  refine List.mem_append_left _ (mem_foldl_addJoining_of_mem hspeaks ?_)
  cases hjoins : p.joins with
  | false =>
      exact Or.inl (mem_stackBlocks_of_mem (List.mem_filter.2 ⟨hp, by rw [hjoins]; rfl⟩) hline)
  | true => exact Or.inr ⟨p, List.mem_filter.2 ⟨hp, hjoins⟩, hline⟩

/-- All lines of whole blocks are in the group. -/
theorem mem_groupLines_of_not_joins {plans : List Plan} {p : Plan} (hp : p ∈ plans)
    (hjoins : p.joins = false) {line : Text} (hline : line ∈ p.lines) :
    line ∈ groupLines plans := by
  have hblocks : line ∈ stackBlocks (plans.filter fun p => !p.joins) :=
    mem_stackBlocks_of_mem (List.mem_filter.2 ⟨hp, by rw [hjoins]; rfl⟩) hline
  rw [groupLines]
  exact List.mem_append_left _ (mem_foldl_addJoining_left hblocks)

theorem addJoining_ne_nil {lines joining : List Text} (h : lines ≠ [] ∨ joining ≠ []) :
    addJoining lines joining ≠ [] := by
  cases lines with
  | nil =>
      rw [addJoining]
      exact h.resolve_left (not_not.2 rfl)
  | cons line lines => simp [addJoining]

theorem foldl_addJoining_ne_nil {plans : List Plan} {blocks : List Text}
    (h : blocks ≠ [] ∨ ∃ p ∈ plans, p.lines ≠ []) :
    plans.foldl (fun acc p => addJoining acc p.lines) blocks ≠ [] := by
  induction plans generalizing blocks with
  | nil =>
      rcases h with h | ⟨p, hp, -⟩
      · exact h
      · cases hp
  | cons p plans ih =>
      refine ih ?_
      rcases h with h | ⟨q, hq, h⟩
      · exact Or.inl (addJoining_ne_nil (Or.inl h))
      · rcases List.mem_cons.1 hq with rfl | hq
        · exact Or.inl (addJoining_ne_nil (Or.inr h))
        · exact Or.inr ⟨q, hq, h⟩

/-- A plan with lines puts some line in the place of its range. -/
theorem groupLines_ne_nil {plans : List Plan} {p : Plan} (hp : p ∈ plans) (hlines : p.lines ≠ []) :
    groupLines plans ≠ [] := by
  cases hjoins : p.joins with
  | false =>
      obtain ⟨line, rest, hcons⟩ := List.exists_cons_of_ne_nil hlines
      exact List.ne_nil_of_mem (mem_groupLines_of_not_joins hp hjoins (hcons ▸ List.mem_cons_self))
  | true =>
      rw [groupLines]
      exact List.append_ne_nil_of_left_ne_nil (foldl_addJoining_ne_nil
        (Or.inr ⟨p, List.mem_filter.2 ⟨hp, hjoins⟩, hlines⟩)) _

end RubyDoc.Edit
