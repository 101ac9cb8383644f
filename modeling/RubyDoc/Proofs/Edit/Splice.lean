import Mathlib.Data.List.Induction
import RubyDoc.Proofs.Edit.Group
import RubyDoc.Proofs.Edit.Stanza

/-!
# Carrying out plans as one splice

Replacing ranges one after another from the end of a text gives the same as one pass from its start
that copies what no plan touches and writes the lines of each range in its place
(`apply_eq_spliced`).  All that is asked of the ranges is that they lie in the text and do not
overlap: they may touch, and an empty range may stand at either end of another one.  Which plan is
listed before which matters only inside a range; there the lines follow one another as `Grouped`
says.
-/

namespace RubyDoc.Edit

open Comment

/-! ## One pass through the text -/

/-- The distinct ranges of plans, from the start of a text on, no one overlapping the next. -/
structure Ascending (plans : List Plan) (rs : List Range) : Prop where
  nodup : rs.Nodup
  mem_iff : ∀ r, r ∈ rs ↔ ∃ p ∈ plans, p.range = r
  apart : rs.Pairwise fun a b => a.stop ≤ b.start

/-- What stands in the place of a range: the lines put there, or what was there if there are no
lines. -/
def Range.filled (text : Text) (r : Range) (lines : List Text) : Text :=
  if lines.isEmpty then (text.take r.stop).drop r.start else terminated text.newline lines

/-- The text from the offset `k` on with the ranges of a list filled, each gap copied. -/
def spliced (text : Text) (lines : Range → List Text) (k : Nat) : List Range → Text
  | [] => text.drop k
  | r :: rs =>
      (text.take r.start).drop k ++ r.filled text (lines r) ++ spliced text lines r.stop rs

section Pass

variable {text : Text} {lines : Range → List Text}

/-- A range is filled in a text whose end, from the end of the range on, was edited before. -/
theorem replaceRange_take_append {r : Range} {k : Nat} (hk : k ≤ r.start) (hr : r.start ≤ r.stop)
    (hstop : r.stop ≤ text.length) (ls : List Text) (edited : Text) :
    replaceRange text.newline (text.take r.stop ++ edited) r ls =
      text.take k ++ ((text.take r.start).drop k ++ r.filled text ls ++ edited) := by
  have hstart : text.take k ++ (text.take r.start).drop k = text.take r.start := by
    conv_rhs => rw [← List.take_append_drop k (text.take r.start), List.take_take, min_eq_left hk]
  have hrange : text.take r.start ++ (text.take r.stop).drop r.start = text.take r.stop := by
    conv_rhs =>
      rw [← List.take_append_drop r.start (text.take r.stop), List.take_take, min_eq_left hr]
  have hlength : (text.take r.stop).length = r.stop := by
    rw [List.length_take, min_eq_left hstop]
  rw [← List.append_assoc, ← List.append_assoc, hstart, replaceRange, Range.filled]
  split
  · rw [hrange]
  · have htake : (text.take r.stop ++ edited).take r.start = text.take r.start := by
      rw [List.take_append_of_le_length (by omega), List.take_take, min_eq_left hr]
    have hdrop : (text.take r.stop ++ edited).drop r.stop = edited :=
      List.drop_left' hlength
    rw [htake, hdrop]

/-- Replacing from the end of the text on leaves the text before the first range as it is. -/
theorem foldr_replaceRange_eq_spliced {rs : List Range} {k : Nat} (hk : ∀ r ∈ rs, k ≤ r.start)
    (hfits : ∀ r ∈ rs, r.start ≤ r.stop ∧ r.stop ≤ text.length)
    (hapart : rs.Pairwise fun a b => a.stop ≤ b.start) :
    rs.foldr (fun r t => replaceRange text.newline t r (lines r)) text =
      text.take k ++ spliced text lines k rs := by
  induction rs generalizing k with
  | nil => exact (List.take_append_drop k text).symm
  | cons r rs ih =>
      obtain ⟨hfirst, hapart⟩ := List.pairwise_cons.1 hapart
      obtain ⟨hr, hrest⟩ := List.forall_mem_cons.1 hfits
      rw [List.foldr_cons, ih hfirst hrest hapart, spliced,
        replaceRange_take_append (hk r List.mem_cons_self) hr.1 hr.2]

end Pass

/-- Ranges that do not overlap can be listed from the start of the text on. -/
theorem ascending_reverse_ranges {plans : List Plan} (hfits : ∀ p ∈ plans, p.start ≤ p.stop)
    (hapart : ∀ p ∈ plans, ∀ q ∈ plans, p.range ≠ q.range → p.stop ≤ q.start ∨ q.stop ≤ p.start) :
    Ascending plans (ranges plans).reverse where
  nodup := List.nodup_reverse.2 (nodup_ranges plans)
  mem_iff r := by rw [List.mem_reverse, mem_ranges, List.mem_map]
  apart := by
    rw [List.pairwise_reverse]
    refine List.Pairwise.imp_of_mem ?_ ((pairwise_ranges plans).and (nodup_ranges plans))
    rintro a b ha hb ⟨hlater, hne⟩
    obtain ⟨p, hp, rfl⟩ := List.mem_map.1 (mem_ranges.1 ha)
    obtain ⟨q, hq, rfl⟩ := List.mem_map.1 (mem_ranges.1 hb)
    rw [isLater_iff] at hlater
    have hpq := hapart p hp q hq hne
    have hfitsp := hfits p hp
    have hfitsq := hfits q hq
    have hne' : ¬(p.start = q.start ∧ p.stop = q.stop) := fun h =>
      hne (by rw [Plan.range, Plan.range, h.1, h.2])
    simp only [Plan.range] at hlater ⊢
    -- The later range would otherwise be empty and equal to the other one.
    omega

/-- There is one way only to list them so. -/
theorem Ascending.ranges_eq {plans : List Plan} {rs : List Range} (h : Ascending plans rs)
    (hfits : ∀ p ∈ plans, p.start ≤ p.stop) : ranges plans = rs.reverse := by
  refine ranges_eq_of_pairwise (List.nodup_reverse.2 h.nodup) (fun r => ?_) ?_
  · rw [List.mem_reverse, h.mem_iff, List.mem_map]
  · rw [List.pairwise_reverse]
    refine h.apart.imp_of_mem fun {a b} ha hb hab => ?_
    obtain ⟨p, hp, rfl⟩ := (h.mem_iff a).1 ha
    obtain ⟨q, hq, rfl⟩ := (h.mem_iff b).1 hb
    have hfitsp := hfits p hp
    have hfitsq := hfits q hq
    rw [isLater_iff]
    simp only [Plan.range] at hab ⊢
    omega

/-- The order in which plans for different ranges are listed makes no difference. -/
theorem apply_eq_of_filter_eq {plans plans' : List Plan}
    (h : ∀ r, plans'.filter (fun p => p.range = r) = plans.filter fun p => p.range = r)
    (text : Text) : apply text plans' = apply text plans := by
  have hmem : ∀ ps : List Plan, ∀ r,
      r ∈ ps.map Plan.range ↔ ps.filter (fun p => p.range = r) ≠ [] := by
    intro ps r
    rw [Ne, List.filter_eq_nil_iff, List.mem_map]
    simp
  have hranges : ranges plans' = ranges plans :=
    ranges_eq_of_pairwise (nodup_ranges plans)
      (fun r => by rw [mem_ranges, hmem, hmem, h]) (pairwise_ranges plans)
  simp only [apply, hranges, h]

/-! ## The lines of one range -/

/-- Whole blocks one below another, an empty comment line at the indentation of each block above it,
only the first block without one. -/
inductive Stacked : List Plan → List Text → Prop
  | nil : Stacked [] []
  | first (p : Plan) : Stacked [p] p.lines
  | under {ps : List Plan} {out : List Text} (hps : ps ≠ []) (h : Stacked ps out) (p : Plan) :
      Stacked (ps ++ [p]) (out ++ p.separator :: p.lines)

/-- Would an empty comment line come to stand directly below another one? -/
def Meet (above below : List Text) : Prop :=
  ∃ a b, above.getLast? = some a ∧ below.head? = some b ∧ isEmptyComment a ∧ isEmptyComment b

/-- Below the lines `blocks`, the lines of each plan; only an empty comment line at their head is
left out, and only where it would stand below another one. -/
inductive Joined (blocks : List Text) : List Plan → List Text → Prop
  | nil : Joined blocks [] blocks
  | whole {ps : List Plan} {out : List Text} (h : Joined blocks ps out) (p : Plan)
      (hp : ¬Meet out p.lines) : Joined blocks (ps ++ [p]) (out ++ p.lines)
  | headless {ps : List Plan} {out : List Text} (h : Joined blocks ps out) (p : Plan)
      {first : Text} {rest : List Text} (hlines : p.lines = first :: rest) (hp : Meet out p.lines) :
      Joined blocks (ps ++ [p]) (out ++ rest)

/-- The lines that the first of the plans with lines to keep keeps. -/
inductive FirstKept : List Plan → List Text → Prop
  | none {ps : List Plan} (h : ∀ p ∈ ps, p.kept = []) : FirstKept ps []
  | some {before : List Plan} (h : ∀ p ∈ before, p.kept = []) {p : Plan} (hp : p.kept ≠ [])
      (after : List Plan) : FirstKept (before ++ p :: after) p.kept

/-- The lines of plans for one range: whole blocks, what joins a comment, and what is kept. -/
structure Grouped (plans : List Plan) (out : List Text) : Prop where
  intro ::
  exists_parts : ∃ blocks joined kept, Stacked (plans.filter fun p => !p.joins) blocks ∧
    Joined blocks (plans.filter fun p => p.joins) joined ∧ FirstKept plans kept ∧
    out = joined ++ kept

theorem stackBlocks_append_singleton {ps : List Plan} (hps : ps ≠ []) (p : Plan) :
    stackBlocks (ps ++ [p]) = stackBlocks ps ++ p.separator :: p.lines := by
  cases ps with
  | nil => exact absurd rfl hps
  | cons first rest =>
      rw [List.cons_append, stackBlocks, stackBlocks, List.flatMap_append, List.append_assoc,
        List.flatMap_singleton, Plan.separator]

theorem stacked_stackBlocks (ps : List Plan) : Stacked ps (stackBlocks ps) := by
  induction ps using List.reverseRecOn with
  | nil => exact .nil
  | append_singleton ps p ih =>
      by_cases hps : ps = []
      · rw [hps, List.nil_append, stackBlocks, List.flatMap_nil, List.append_nil]
        exact .first p
      · rw [stackBlocks_append_singleton hps]
        exact .under hps ih p

theorem meet_iff {above below : List Text} : Meet above below ↔
    (above.getLast?.any isEmptyComment && below.head?.any isEmptyComment) = true := by
  rw [Bool.and_eq_true, Option.any_eq_true, Option.any_eq_true]
  constructor
  · rintro ⟨a, b, ha, hb, hea, heb⟩
    exact ⟨⟨a, ha, hea⟩, b, hb, heb⟩
  · rintro ⟨⟨a, ha, hea⟩, b, hb, heb⟩
    exact ⟨a, b, ha, hb, hea, heb⟩

theorem joined_foldl (blocks : List Text) (ps : List Plan) :
    Joined blocks ps (ps.foldl (fun acc p => addJoining acc p.lines) blocks) := by
  induction ps using List.reverseRecOn with
  | nil => exact .nil
  | append_singleton ps p ih =>
      rw [List.foldl_append, List.foldl_cons, List.foldl_nil, addJoining]
      by_cases hmeet : Meet (ps.foldl (fun acc p => addJoining acc p.lines) blocks) p.lines
      · rw [if_pos (meet_iff.1 hmeet)]
        obtain ⟨first, hfirst⟩ : ∃ first, p.lines.head? = some first :=
          hmeet.elim fun _ h => h.imp fun _ h => h.2.1
        obtain ⟨rest, hlines⟩ := List.head?_eq_some_iff.1 hfirst
        rw [hlines, List.drop_one, List.tail_cons]
        exact .headless ih p hlines hmeet
      · rw [if_neg fun h => hmeet (meet_iff.2 h)]
        exact .whole ih p hmeet

theorem firstKept_find? (ps : List Plan) :
    FirstKept ps (((ps.find? fun p => !p.kept.isEmpty).map Plan.kept).getD []) := by
  cases h : ps.find? fun p => !p.kept.isEmpty with
  | none =>
      refine .none fun p hp => ?_
      simpa using List.find?_eq_none.1 h p hp
  | some p =>
      obtain ⟨hp, before, after, rfl, hbefore⟩ := List.find?_eq_some_iff_append.1 h
      exact .some (fun q hq => by simpa using hbefore q hq) (by simpa using hp) after

theorem grouped_groupLines (ps : List Plan) : Grouped ps (groupLines ps) :=
  ⟨_, _, _, stacked_stackBlocks _, joined_foldl _ _, firstKept_find? ps, rfl⟩

/-! ## All at once -/

/-- **Carrying out plans whose ranges do not overlap is one splice from left to right.**  It does
not depend on the order of plans for different ranges, and in each range the lines of its plans
follow one another in the order of the list. -/
theorem apply_eq_spliced {text : Text} {plans : List Plan}
    (hfits : ∀ p ∈ plans, p.start ≤ p.stop ∧ p.stop ≤ text.length)
    (hapart : ∀ p ∈ plans, ∀ q ∈ plans, p.range ≠ q.range → p.stop ≤ q.start ∨ q.stop ≤ p.start) :
    (∃ rs, Ascending plans rs) ∧
      (∀ rs, Ascending plans rs → apply text plans = spliced text (replacement plans) 0 rs) ∧
      (∀ plans' : List Plan,
        (∀ r, plans'.filter (fun p => p.range = r) = plans.filter fun p => p.range = r) →
          apply text plans' = apply text plans) ∧
      ∀ r, Grouped (plans.filter fun p => p.range = r) (replacement plans r) := by
  have hle : ∀ p ∈ plans, p.start ≤ p.stop := fun p hp => (hfits p hp).1
  refine ⟨⟨_, ascending_reverse_ranges hle hapart⟩, fun rs hrs => ?_,
    fun plans' h => apply_eq_of_filter_eq h text, fun r => grouped_groupLines _⟩
  have hrsfits : ∀ r ∈ rs, r.start ≤ r.stop ∧ r.stop ≤ text.length := by
    intro r hr
    obtain ⟨p, hp, rfl⟩ := (hrs.mem_iff r).1 hr
    exact hfits p hp
  rw [apply, hrs.ranges_eq hle, List.foldl_reverse]
  exact foldr_replaceRange_eq_spliced (fun r _ => Nat.zero_le r.start) hrsfits hrs.apart

/-- Plans for three ranges that touch: the empty one between the two others has three plans. -/
def touchingPlans : List Plan :=
  [{ start := 2, stop := 4, lines := ["B"], indent := [] },
    { start := 2, stop := 2, lines := ["# x"], indent := [] },
    { start := 0, stop := 2, lines := ["A"], indent := [] },
    { start := 2, stop := 2, lines := ["#", "# y", "#"], indent := [], joins := true },
    { start := 2, stop := 2, lines := ["#", "# z"], indent := [], joins := true, kept := ["# k"] }]

/-- The lines of the empty range come between those of its neighbours, also when the plans for
different ranges are listed in another order. -/
theorem apply_eq_spliced_touching :
    apply "a\nb\nc\n" touchingPlans = "A\n# x\n#\n# y\n#\n# z\n# k\nB\nc\n" ∧
      apply "a\nb\nc\n" (touchingPlans.drop 1 ++ touchingPlans.take 1) =
        apply "a\nb\nc\n" touchingPlans := by
  have hascending : Ascending touchingPlans [⟨0, 2⟩, ⟨2, 2⟩, ⟨2, 4⟩] := by
    refine ⟨by decide, fun r => ?_, by decide⟩
    have hranges : touchingPlans.map Plan.range = [⟨2, 4⟩, ⟨2, 2⟩, ⟨0, 2⟩, ⟨2, 2⟩, ⟨2, 2⟩] := rfl
    rw [← List.mem_map, hranges]
    simp only [List.mem_cons, List.not_mem_nil, or_false]
    tauto
  obtain ⟨-, hspliced, horder, -⟩ :=
    @apply_eq_spliced "a\nb\nc\n" touchingPlans (by decide) (by decide)
  refine ⟨(hspliced _ hascending).trans (by decide), horder _ fun r => ?_⟩
  -- Only the plan for the last range changes its place.
  conv_rhs => rw [← List.take_append_drop 1 touchingPlans]
  rw [List.filter_append, List.filter_append]
  by_cases hr : Range.mk 2 4 = r
  · have hrest : (touchingPlans.drop 1).filter (fun p => p.range = r) = [] := by
      rw [← hr]
      rfl
    rw [hrest, List.append_nil, List.nil_append]
  · have hfirst : (touchingPlans.take 1).filter (fun p => p.range = r) = [] := by
      simp [touchingPlans, Plan.range, hr]
    rw [hfirst, List.append_nil, List.nil_append]

end RubyDoc.Edit
