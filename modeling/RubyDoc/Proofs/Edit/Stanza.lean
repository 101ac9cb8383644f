import RubyDoc.Edit.Plan
import RubyDoc.Proofs.Distinct
import RubyDoc.Proofs.Text.LineView

/-!
# Carrying out plans stanza by stanza

A stanza is a line with the lines above it.  When every plan replaces some of the lines above the
line of a stanza, carrying out all plans edits each stanza on its own: `apply_ofLines`.  The ranges
of different stanzas lie apart, so replacing the later ones first never moves the earlier ones.
`moved` says where an offset of the text comes to lie; a place in the line of a stanza moves with
that line (`moved_eq`).
-/

namespace RubyDoc.Edit

open Text

/-- The lines that the plans put in the place of a range. -/
def replacement (plans : List Plan) (r : Range) : List Text :=
  groupLines (plans.filter fun p => p.range = r)

/-- Where an offset comes to lie when a range is replaced by lines: from the end of the range on,
everything moves. -/
def Range.move (newline : Text) (r : Range) (lines : List Text) (k : Nat) : Nat :=
  if lines.isEmpty ∨ k < r.stop then k
  else k - (r.stop - r.start) + (terminated newline lines).length

/-- Where an offset of the text comes to lie when the plans are carried out. -/
def moved (text : Text) (plans : List Plan) (k : Nat) : Nat :=
  (ranges plans).foldl (fun k r => r.move text.newline (replacement plans r) k) k

theorem replacement_of_notMem {plans : List Plan} {r : Range} (h : r ∉ plans.map Plan.range) :
    replacement plans r = [] := by
  have hnone : plans.filter (fun p => p.range = r) = [] := by
    rw [List.filter_eq_nil_iff]
    intro p hp
    have hne : p.range ≠ r := fun heq => h (heq ▸ List.mem_map_of_mem hp)
    simpa using hne
  rw [replacement, hnone]
  rfl

/-! ## The order of the ranges -/

theorem isLater_iff {a b : Range} :
    a.isLater b = true ↔ a.stop > b.stop ∨ (a.stop = b.stop ∧ a.start ≥ b.start) := by
  simp [Range.isLater]

theorem pairwise_ranges (plans : List Plan) :
    (ranges plans).Pairwise fun a b => a.isLater b = true := by
  refine List.pairwise_mergeSort (fun a b c => ?_) (fun a b => ?_) _
  · rw [isLater_iff, isLater_iff, isLater_iff]
    omega
  · rw [Bool.or_eq_true, isLater_iff, isLater_iff]
    omega

theorem mem_ranges {plans : List Plan} {r : Range} :
    r ∈ ranges plans ↔ r ∈ plans.map Plan.range := by
  rw [ranges, List.mem_mergeSort, List.mem_eraseDups]

theorem nodup_ranges (plans : List Plan) : (ranges plans).Nodup :=
  (List.mergeSort_perm _ _).nodup_iff.2 (nodup_eraseDups _)

/-- The ranges of plans are the only list of them without repetition and from the latest on. -/
theorem ranges_eq_of_pairwise {plans : List Plan} {rs : List Range} (hnodup : rs.Nodup)
    (hmem : ∀ r, r ∈ rs ↔ r ∈ plans.map Plan.range)
    (hlater : rs.Pairwise fun a b => a.isLater b = true) : ranges plans = rs := by
  refine ((List.perm_ext_iff_of_nodup (nodup_ranges plans) hnodup).2 fun r => ?_).eq_of_pairwise
    (fun a b _ _ hab hba => ?_) (pairwise_ranges plans) hlater
  · rw [mem_ranges, hmem]
  · rw [isLater_iff] at hab hba
    cases a
    cases b
    simp only [Range.mk.injEq] at *
    omega

/-- Does the range `b` lie behind the range `a`? -/
def Range.Behind (a b : Range) : Prop :=
  a.stop < b.start ∧ b.start ≤ b.stop

/-- Ranges of plans taken from an ascending list come in that order, from the end on. -/
theorem ranges_eq_reverse {plans : List Plan} {spots : List Range}
    (hspots : spots.Pairwise Range.Behind) (hle : ∀ r ∈ spots, r.start ≤ r.stop)
    (hplans : ∀ p ∈ plans, p.range ∈ spots) :
    ranges plans = (spots.filter fun r => r ∈ plans.map Plan.range).reverse := by
  have hnodup : spots.Nodup := by
    refine hspots.imp_of_mem fun {a b} ha _ hab heq => ?_
    have := hle a ha
    rw [← heq] at hab
    exact absurd hab.1 (Nat.not_lt.2 this)
  refine ranges_eq_of_pairwise (List.nodup_reverse.2 (hnodup.filter _)) (fun r => ?_) ?_
  · rw [List.mem_reverse, List.mem_filter, decide_eq_true_iff]
    refine ⟨fun hr => hr.2, fun hr => ⟨?_, hr⟩⟩
    obtain ⟨p, hp, rfl⟩ := List.mem_map.1 hr
    exact hplans p hp
  · rw [List.pairwise_reverse]
    refine (hspots.filter _).imp fun {a b} hab => ?_
    rw [isLater_iff]
    have := hab.1
    have := hab.2
    omega

theorem ranges_singleton (p : Plan) : ranges [p] = [p.range] := by
  rw [ranges, List.map_singleton, List.eraseDups_cons, List.filter_nil, List.eraseDups_nil,
    List.mergeSort_singleton]

/-! ## Replacing whole lines -/

theorem terminated_eq (text : Text) (lines : List Text) :
    terminated text.newline lines = closed (lines.map (· ++ text.ending)) := by
  simp only [terminated, closed, newline_eq, List.flatMap_map, List.append_assoc]

/-- Replacing whole lines of a text is replacing them in the list of its lines. -/
theorem replaceRange_ofLines (text : Text) (upper removed : List Text) {rest lines : List Text}
    (hrest : rest ≠ []) (hlines : lines ≠ []) :
    replaceRange text.newline (ofLines (upper ++ removed ++ rest))
        ⟨(closed upper).length, (closed (upper ++ removed)).length⟩ lines =
      ofLines (upper ++ lines.map (· ++ text.ending) ++ rest) := by
  have htake : (ofLines (upper ++ removed ++ rest)).take (closed upper).length = closed upper := by
    rw [List.append_assoc]
    exact take_ofLines upper (by simp [hrest])
  rw [replaceRange, if_neg (by simpa using hlines), htake, drop_ofLines (upper ++ removed) hrest,
    terminated_eq, ofLines_append _ hrest, closed_append]

theorem replaceRange_nil (newline text : Text) (r : Range) :
    replaceRange newline text r [] = text :=
  rfl

/-! ## Stanzas -/

/-- How an edit cuts the lines above a line: what stays above it, what gives way, what stays below
it. -/
structure Cut (ls : List Text) where
  upper : List Text
  removed : List Text
  lower : List Text
  eq : ls = upper ++ removed ++ lower

/-- A line with lines above it. -/
structure Stanza where
  above : List Text
  line : Text

namespace Stanza

/-- The lines of a stanza. -/
def all (s : Stanza) : List Text :=
  s.above ++ [s.line]

/-- The lines of some stanzas. -/
def flat (ss : List Stanza) : List Text :=
  ss.flatMap all

@[simp] theorem flat_nil : flat [] = [] := rfl

@[simp] theorem flat_cons (s : Stanza) (ss : List Stanza) : flat (s :: ss) = s.all ++ flat ss := rfl

@[simp] theorem flat_append (ss ts : List Stanza) : flat (ss ++ ts) = flat ss ++ flat ts :=
  List.flatMap_append

section Edits

variable (cut : ∀ ls : List Text, Cut ls)

/-- The range above the line of a stanza that an edit replaces, with the lines `pre` above the
stanza. -/
def spot (pre : List Text) (s : Stanza) : Range :=
  ⟨(closed (pre ++ (cut s.above).upper)).length,
    (closed (pre ++ (cut s.above).upper ++ (cut s.above).removed)).length⟩

/-- The ranges of all stanzas, from the first one on. -/
def spots (pre : List Text) : List Stanza → List Range
  | [] => []
  | s :: ss => s.spot cut pre :: spots (pre ++ s.all) ss

/-- A stanza with its range replaced by the lines `new`; no lines leave it alone. -/
def withLines (s : Stanza) (new : List Text) : Stanza :=
  if new = [] then s
  else { s with above := (cut s.above).upper ++ new ++ (cut s.above).lower }

/-- A stanza with the plans for its range carried out. -/
def edited (text : Text) (plans : List Plan) (pre : List Text) (s : Stanza) : Stanza :=
  s.withLines cut ((replacement plans (s.spot cut pre)).map (· ++ text.ending))

/-- The stanzas with all plans carried out. -/
def editedAll (text : Text) (plans : List Plan) (pre : List Text) : List Stanza → List Stanza
  | [] => []
  | s :: ss => s.edited cut text plans pre :: editedAll text plans (pre ++ s.all) ss

variable {cut}

@[simp] theorem line_withLines (s : Stanza) (new : List Text) :
    (s.withLines cut new).line = s.line := by
  rw [withLines]
  split <;> rfl

@[simp] theorem line_edited (text : Text) (plans : List Plan) (pre : List Text) (s : Stanza) :
    (s.edited cut text plans pre).line = s.line :=
  line_withLines s _

theorem map_line_editedAll (text : Text) (plans : List Plan) (pre : List Text) (ss : List Stanza) :
    (editedAll cut text plans pre ss).map Stanza.line = ss.map Stanza.line := by
  induction ss generalizing pre with
  | nil => rfl
  | cons s ss ih => rw [editedAll, List.map_cons, List.map_cons, line_edited, ih]

theorem length_editedAll (text : Text) (plans : List Plan) (pre : List Text) (ss : List Stanza) :
    (editedAll cut text plans pre ss).length = ss.length := by
  have hlines := congrArg List.length (@map_line_editedAll cut text plans pre ss)
  rwa [List.length_map, List.length_map] at hlines

theorem editedAll_append (text : Text) (plans : List Plan) (pre : List Text) (ss ts : List Stanza) :
    editedAll cut text plans pre (ss ++ ts) =
      editedAll cut text plans pre ss ++ editedAll cut text plans (pre ++ flat ss) ts := by
  induction ss generalizing pre with
  | nil => simp [editedAll]
  | cons s ss ih => simp [editedAll, ih]

/-- A stanza is edited where it stands. -/
theorem editedAll_split (text : Text) (plans : List Plan) (ss₁ : List Stanza) (s : Stanza)
    (ss₂ : List Stanza) : editedAll cut text plans [] (ss₁ ++ s :: ss₂) =
      editedAll cut text plans [] ss₁ ++ s.edited cut text plans (flat ss₁) ::
        editedAll cut text plans (flat ss₁ ++ s.all) ss₂ := by
  rw [editedAll_append, List.nil_append, editedAll]

theorem spots_append (pre : List Text) (ss ts : List Stanza) :
    spots cut pre (ss ++ ts) = spots cut pre ss ++ spots cut (pre ++ flat ss) ts := by
  induction ss generalizing pre with
  | nil => simp [spots]
  | cons s ss ih => simp [spots, ih]

/-- Where the lines above an edited stanza come from. -/
theorem mem_above_edited {text : Text} {plans : List Plan} {line : Text} {pre : List Text}
    {s : Stanza} (h : line ∈ (s.edited cut text plans pre).above) :
    line ∈ s.above ∨ ∃ r, ∃ new ∈ replacement plans r, line = new ++ text.ending := by
  rw [edited, withLines] at h
  split at h
  · exact Or.inl h
  · rw [List.mem_append, List.mem_append] at h
    rcases h with (h | h) | h
    · refine Or.inl ?_
      rw [(cut s.above).eq]
      simp [h]
    · obtain ⟨new, hnew, rfl⟩ := List.mem_map.1 h
      exact Or.inr ⟨_, new, hnew, rfl⟩
    · refine Or.inl ?_
      rw [(cut s.above).eq]
      simp [h]

theorem mem_above_edited_of_mem (text : Text) {plans : List Plan} {new : Text} {pre : List Text}
    {s : Stanza} (h : new ∈ replacement plans (s.spot cut pre)) :
    new ++ text.ending ∈ (s.edited cut text plans pre).above := by
  have hmem : new ++ text.ending ∈ (replacement plans (s.spot cut pre)).map (· ++ text.ending) :=
    List.mem_map_of_mem h
  rw [edited, withLines, if_neg (List.ne_nil_of_mem hmem)]
  exact List.mem_append_left _ (List.mem_append_right _ hmem)

/-- Where the lines of edited stanzas come from. -/
theorem mem_flat_editedAll {text : Text} {plans : List Plan} {line : Text} {pre : List Text}
    {ss : List Stanza} (h : line ∈ flat (editedAll cut text plans pre ss)) :
    line ∈ flat ss ∨ ∃ r, ∃ new ∈ replacement plans r, line = new ++ text.ending := by
  induction ss generalizing pre with
  | nil => cases h
  | cons s ss ih =>
      rw [editedAll, flat_cons, all, line_edited, List.mem_append, List.mem_append] at h
      rw [flat_cons, all, List.mem_append, List.mem_append]
      rcases h with (h | h) | h
      · exact (mem_above_edited h).imp_left fun h => Or.inl (Or.inl h)
      · exact Or.inl (Or.inl (Or.inr h))
      · exact (ih h).imp_left Or.inr

/-- The lines above a stanza are not the last ones. -/
theorem mem_dropLast_of_mem_above (ss₁ : List Stanza) {s : Stanza} (ss₂ : List Stanza)
    (below : List Text) {line : Text} (h : line ∈ s.above) :
    line ∈ (flat (ss₁ ++ s :: ss₂) ++ below).dropLast := by
  have hsplit : flat (ss₁ ++ s :: ss₂) ++ below =
      (flat ss₁ ++ s.above) ++ s.line :: (flat ss₂ ++ below) := by
    simp [all]
  rw [hsplit, List.dropLast_append_cons]
  simp [h]

/-- The last line stays the last one, so the lines before it come from the lines before it. -/
theorem mem_dropLast_editedAll {text : Text} {plans : List Plan} {line : Text} {pre : List Text}
    {ss : List Stanza} {below : List Text}
    (h : line ∈ (flat (editedAll cut text plans pre ss) ++ below).dropLast) :
    line ∈ (flat ss ++ below).dropLast ∨
      ∃ r, ∃ new ∈ replacement plans r, line = new ++ text.ending := by
  induction ss generalizing pre with
  | nil => exact Or.inl h
  | cons s ss ih =>
      simp only [editedAll, flat_cons, all, line_edited, List.append_assoc, List.cons_append,
        List.nil_append, List.dropLast_append_cons, List.mem_append] at h ⊢
      rcases h with h | h
      · exact (mem_above_edited h).imp_left Or.inl
      · by_cases hrest : flat ss ++ below = []
        · -- Then the line of the stanza is the last one, also after the edit.
          obtain ⟨hss, rfl⟩ := List.append_eq_nil_iff.1 hrest
          have hnil : ss = [] := by
            cases ss with
            | nil => rfl
            | cons t ss => simp [all] at hss
          rw [hnil] at h
          cases h
        · have hedited :
              flat (editedAll cut text plans (pre ++ (s.above ++ [s.line])) ss) ++ below ≠ [] := by
            cases ss with
            | nil => exact hrest
            | cons t ss => simp [editedAll, all]
          rw [List.dropLast_cons_of_ne_nil hedited] at h
          rw [List.dropLast_cons_of_ne_nil hrest]
          rcases List.mem_cons.1 h with rfl | h
          · exact Or.inl (Or.inr List.mem_cons_self)
          · exact (ih h).imp_left fun h => Or.inr (List.mem_cons_of_mem _ h)

/-! ## The ranges of stanzas lie apart -/

theorem spot_start_le_stop (pre : List Text) (s : Stanza) :
    (s.spot cut pre).start ≤ (s.spot cut pre).stop := by
  simp only [spot, closed_append, List.length_append]
  omega

theorem length_le_spot_start (pre : List Text) (s : Stanza) :
    (closed pre).length ≤ (s.spot cut pre).start := by
  simp only [spot, closed_append, List.length_append]
  omega

theorem spot_stop_le (pre : List Text) (s : Stanza) :
    (s.spot cut pre).stop ≤ (closed (pre ++ s.above)).length := by
  conv_rhs => rw [(cut s.above).eq]
  simp only [spot, closed_append, List.length_append]
  omega

/-- The range of a stanza lies behind the line of every stanza further up. -/
theorem lt_spot_start (ss : List Stanza) (s : Stanza) (ts : List Stanza) (t : Stanza) :
    (closed (flat ss ++ s.above)).length < (t.spot cut (flat (ss ++ s :: ts))).start := by
  have hstart := @length_le_spot_start cut (flat (ss ++ s :: ts)) t
  have hlength : (closed (flat (ss ++ s :: ts))).length =
      (closed (flat ss ++ s.above)).length + s.line.length + 1 + (closed (flat ts)).length := by
    simp only [flat_append, flat_cons, all, closed_append, closed_cons, closed_nil,
      List.length_append, List.length_cons, List.length_nil]
    omega
  omega

theorem length_le_of_mem_spots {pre : List Text} {ss : List Stanza} {r : Range}
    (h : r ∈ spots cut pre ss) : (closed pre).length ≤ r.start ∧ r.start ≤ r.stop := by
  induction ss generalizing pre with
  | nil => cases h
  | cons s ss ih =>
      rcases List.mem_cons.1 h with rfl | h
      · exact ⟨length_le_spot_start pre s, spot_start_le_stop pre s⟩
      · have hrest := ih h
        rw [closed_append, List.length_append] at hrest
        omega

theorem pairwise_spots (pre : List Text) (ss : List Stanza) :
    (spots cut pre ss).Pairwise Range.Behind := by
  induction ss generalizing pre with
  | nil => exact List.Pairwise.nil
  | cons s ss ih =>
      refine List.pairwise_cons.2 ⟨fun r hr => ?_, ih (pre ++ s.all)⟩
      have hrest := length_le_of_mem_spots hr
      have hstop := @spot_stop_le cut pre s
      have hall : (closed (pre ++ s.all)).length =
          (closed (pre ++ s.above)).length + s.line.length + 1 := by
        simp only [all, closed_append, closed_cons, closed_nil, List.length_append,
          List.length_cons, List.length_nil]
        omega
      exact ⟨by omega, hrest.2⟩

theorem ranges_eq {plans : List Plan} {pre : List Text} {ss : List Stanza}
    (hplans : ∀ p ∈ plans, p.range ∈ spots cut pre ss) :
    ranges plans = ((spots cut pre ss).filter fun r => r ∈ plans.map Plan.range).reverse :=
  ranges_eq_reverse (pairwise_spots pre ss) (fun _ hr => (length_le_of_mem_spots hr).2) hplans

/-! ## Carrying out the plans -/

/-- Skipping the ranges without plans makes no difference to a fold that ignores them. -/
theorem foldr_filter_of_id {α β : Type} {p : α → Bool} {f : α → β → β} {l : List α}
    (h : ∀ a ∈ l, p a = false → ∀ b, f a b = b) (b : β) :
    (l.filter p).foldr f b = l.foldr f b := by
  induction l with
  | nil => rfl
  | cons a l ih =>
      have ih := ih fun a ha => h a (List.mem_cons_of_mem _ ha)
      rw [List.filter_cons]
      cases hpa : p a with
      | false => rw [if_neg (by simp), List.foldr_cons, h a List.mem_cons_self hpa, ih]
      | true => rw [if_pos rfl, List.foldr_cons, List.foldr_cons, ih]

theorem replaceRange_spot (text : Text) (pre : List Text) (s : Stanza) (new rest : List Text) :
    replaceRange text.newline (ofLines (pre ++ s.all ++ rest)) (s.spot cut pre) new =
      ofLines (pre ++ (s.withLines cut (new.map (· ++ text.ending))).all ++ rest) := by
  by_cases hnew : new = []
  · rw [hnew]
    rfl
  · have hall : pre ++ s.all ++ rest =
        (pre ++ (cut s.above).upper) ++ (cut s.above).removed ++
          ((cut s.above).lower ++ s.line :: rest) := by
      rw [all]
      conv_lhs => rw [(cut s.above).eq]
      simp only [List.append_assoc, List.singleton_append]
    rw [hall, spot, replaceRange_ofLines text _ _ (by simp) hnew, withLines,
      if_neg (by simpa using hnew), all]
    simp only [List.append_assoc, List.singleton_append]

theorem foldr_replaceRange (text : Text) (plans : List Plan) (pre : List Text) (ss : List Stanza)
    (below : List Text) :
    (spots cut pre ss).foldr
        (fun r t => replaceRange text.newline t r (replacement plans r))
        (ofLines (pre ++ flat ss ++ below)) =
      ofLines (pre ++ flat (editedAll cut text plans pre ss) ++ below) := by
  induction ss generalizing pre with
  | nil => rfl
  | cons s ss ih =>
      have hsplit : pre ++ flat (s :: ss) ++ below = pre ++ s.all ++ flat ss ++ below := by
        simp only [flat_cons, List.append_assoc]
      -- By the time it is the turn of `s`, the stanzas below are edited.
      rw [spots, List.foldr_cons, hsplit, ih, List.append_assoc (pre ++ s.all), replaceRange_spot,
        editedAll, flat_cons, edited]
      simp only [List.append_assoc]

/-- **Carrying out plans edits each stanza on its own.** -/
theorem apply_ofLines {plans : List Plan} {ss : List Stanza} {below : List Text}
    (hplans : ∀ p ∈ plans, p.range ∈ spots cut [] ss) :
    apply (ofLines (flat ss ++ below)) plans =
      ofLines (flat (editedAll cut (ofLines (flat ss ++ below)) plans [] ss) ++ below) := by
  have hfold := @foldr_replaceRange cut (ofLines (flat ss ++ below)) plans [] ss below
  rw [apply, ranges_eq hplans, List.foldl_reverse]
  refine Eq.trans ?_ hfold
  refine foldr_filter_of_id (fun r _ hr t => ?_) _
  have hnone := @replacement_of_notMem plans r (by simpa using hr)
  rw [replacement] at hnone
  rw [hnone, replaceRange_nil]

/-! ## Where offsets come to lie -/

/-- Replacing the range of a stanza moves what comes after it along with the line of the stanza. -/
theorem move_spot (text : Text) (pre : List Text) (s : Stanza) (new : List Text) (j : Nat) :
    (s.spot cut pre).move text.newline new ((closed (pre ++ s.above)).length + j) =
      (closed (pre ++ (s.withLines cut (new.map (· ++ text.ending))).above)).length + j := by
  have hstop := @spot_stop_le cut pre s
  by_cases hnew : new = []
  · rw [hnew]
    rfl
  · have habove : (closed (pre ++ s.above)).length = (closed pre).length +
        (closed (cut s.above).upper).length + (closed (cut s.above).removed).length +
          (closed (cut s.above).lower).length := by
      conv_lhs => rw [(cut s.above).eq]
      simp only [closed_append, List.length_append]
      omega
    have hmove : ¬(new.isEmpty ∨ (closed (pre ++ s.above)).length + j < (s.spot cut pre).stop) := by
      rw [List.isEmpty_iff, not_or]
      exact ⟨hnew, by omega⟩
    rw [Range.move, if_neg hmove, terminated_eq, withLines, if_neg (by simpa using hnew)]
    simp only [spot, closed_append, List.length_append] at hstop habove ⊢
    omega

theorem foldr_move_above (text : Text) (plans : List Plan) (pre : List Text) (ss : List Stanza)
    (j : Nat) :
    (spots cut pre ss).foldr (fun r k => r.move text.newline (replacement plans r) k)
        ((closed (pre ++ flat ss)).length + j) =
      (closed (pre ++ flat (editedAll cut text plans pre ss))).length + j := by
  induction ss generalizing pre with
  | nil => rfl
  | cons s ss ih =>
      have hrest := ih (pre ++ s.all)
      have hall : ∀ (t : Stanza) (ls : List Text), (closed (pre ++ (t.all ++ ls))).length =
          (closed (pre ++ t.above)).length + (closed (t.line :: ls)).length := by
        intro t ls
        simp only [all, closed_append, closed_cons, closed_nil, List.length_append,
          List.length_cons, List.length_nil]
        omega
      rw [List.append_assoc, hall, List.append_assoc, hall] at hrest
      rw [spots, List.foldr_cons, flat_cons, hall, hrest, Nat.add_assoc, move_spot, editedAll,
        flat_cons, hall, edited, line_withLines, Nat.add_assoc]

/-- Ranges behind an offset do not move it. -/
theorem foldr_move_below (text : Text) (plans : List Plan) (pre : List Text) (ss : List Stanza)
    {k : Nat} (hk : k < (closed pre).length) :
    (spots cut pre ss).foldr (fun r k => r.move text.newline (replacement plans r) k) k = k := by
  have hall : ∀ r ∈ spots cut pre ss, k < r.stop := fun r hr => by
    have := length_le_of_mem_spots hr
    omega
  generalize spots cut pre ss = rs at hall ⊢
  induction rs with
  | nil => rfl
  | cons r rs ih =>
      rw [List.foldr_cons, ih fun r hr => hall r (List.mem_cons_of_mem _ hr), Range.move,
        if_pos (Or.inr (hall r List.mem_cons_self))]

/-- **A place in the line of a stanza moves with the line.** -/
theorem moved_eq {plans : List Plan} {ss₁ : List Stanza} {s : Stanza} {ss₂ : List Stanza}
    {below : List Text}
    (hplans : ∀ p ∈ plans, p.range ∈ spots cut [] (ss₁ ++ s :: ss₂)) {j : Nat}
    (hj : j ≤ s.line.length ∨ ss₂ = []) :
    moved (ofLines (flat (ss₁ ++ s :: ss₂) ++ below)) plans
        ((closed (flat ss₁ ++ s.above)).length + j) =
      (closed (flat (editedAll cut (ofLines (flat (ss₁ ++ s :: ss₂) ++ below)) plans [] ss₁) ++
        (s.edited cut (ofLines (flat (ss₁ ++ s :: ss₂) ++ below)) plans (flat ss₁)).above)).length
          + j := by
  set text := ofLines (flat (ss₁ ++ s :: ss₂) ++ below) with htext
  -- The stanzas below leave the place alone, those above move it along with the line.
  have hlater : (spots cut (flat ss₁ ++ s.all) ss₂).foldr
      (fun r k => r.move text.newline (replacement plans r) k)
      ((closed (flat ss₁ ++ s.above)).length + j) = (closed (flat ss₁ ++ s.above)).length + j := by
    rcases hj with hj | rfl
    · refine foldr_move_below text plans _ ss₂ ?_
      simp only [all, closed_append, closed_cons, closed_nil, List.length_append, List.length_cons,
        List.length_nil]
      omega
    · rfl
  have hearlier := @foldr_move_above cut text plans [] ss₁
    ((closed (s.edited cut text plans (flat ss₁)).above).length + j)
  rw [List.nil_append, List.nil_append, ← Nat.add_assoc, ← Nat.add_assoc, ← List.length_append,
    ← List.length_append, ← closed_append, ← closed_append] at hearlier
  rw [moved, ranges_eq hplans, List.foldl_reverse, foldr_filter_of_id, spots_append, spots,
    List.foldr_append, List.foldr_cons, List.nil_append, hlater, move_spot, ← edited, hearlier]
  intro r _ hr k
  have hnone := @replacement_of_notMem plans r (by simpa using hr)
  rw [hnone]
  rfl

end Edits

end Stanza

end RubyDoc.Edit
