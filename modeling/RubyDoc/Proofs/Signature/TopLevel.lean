import RubyDoc.Proofs.Signature.Closed
import RubyDoc.Proofs.Text.Split

/-!
# Where a separator cuts

The pieces of a text, joined by the separator, are the text again, whatever its brackets and quotes
are.  A separator is one of the cuts exactly if every quote before it is closed again and, outside
of the quotes, as many brackets were closed as opened (`mem_cutOffsets_piecesFrom`).  Brackets need
not match for this: a closing bracket without an opening one is made up for by a later opening one,
and a quote that is never closed hides the rest of the text.
-/

namespace RubyDoc.Signature

open Text

/-- Every quote of the text `t` is closed by the next one like it, and `outside` is what stands
neither between two such quotes nor is one of them. -/
inductive OutsideQuotes : (t outside : Text) → Prop
  | nil : OutsideQuotes [] []
  | outside {s : Sym} {t u : Text} (hs : isQuote s = false) (ht : OutsideQuotes t u) :
      OutsideQuotes (s :: t) (s :: u)
  | quoted {q : Sym} {content t u : Text} (hq : isQuote q) (hcontent : q ∉ content)
      (ht : OutsideQuotes t u) : OutsideQuotes (q :: (content ++ q :: t)) u

/-- Is what follows the text outside of quotes, and were as many brackets opened as closed outside
of quotes? -/
def ReachesTop (t : Text) : Prop :=
  ∃ outside, OutsideQuotes t outside ∧ outside.countP isOpening = outside.countP isClosing

/-- The offsets of the separators in texts that are joined by one symbol. -/
def cutOffsets : List Text → List Nat
  | [] => []
  | [_] => []
  | t :: u :: rest => t.length :: (cutOffsets (u :: rest)).map (t.length + 1 + ·)

/-! ## The level behind a text -/

theorem bracketDepth_eq_countP (t : Text) :
    bracketDepth t = t.countP isOpening - t.countP isClosing := by
  induction t with
  | nil => rfl
  | cons s t ih =>
      rw [bracketDepth_cons, ih, List.countP_cons, List.countP_cons]
      by_cases ho : isOpening s
      · simp [bracketStep_of_opening ho, ho, isClosing_of_opening ho]
        omega
      · by_cases hc : isClosing s
        · simp [bracketStep_of_closing hc, ho, hc]
          omega
        · simp [bracketStep, ho, hc]

theorem Level.isTop_iff {l : Level} : l.isTop ↔ l = {} := by
  obtain ⟨d, q⟩ := l
  simp [isTop, and_comm]

theorem OutsideQuotes.foldl_step {t outside : Text} (h : OutsideQuotes t outside) (d : Int) :
    t.foldl Level.step ⟨d, none⟩ = ⟨d + bracketDepth outside, none⟩ := by
  induction h generalizing d with
  | nil => simp
  | outside hs _ ih =>
      rw [List.foldl_cons, Level.step_outside hs, ih, bracketDepth_cons, Int.add_assoc]
  | @quoted q content t u hq hcontent _ ih =>
      have hne : ∀ s ∈ content, s ≠ q := fun s hs => ne_of_mem_of_not_mem hs hcontent
      rw [List.foldl_cons, Level.step_quote hq, List.foldl_append, Level.foldl_step_quoted hne,
        List.foldl_cons, Level.step_closingQuote, ih]

mutual

/-- Where no quote is open behind a text, its quotes close each other. -/
theorem exists_outsideQuotes {d e : Int} :
    ∀ t : Text, t.foldl Level.step ⟨d, none⟩ = ⟨e, none⟩ → ∃ outside, OutsideQuotes t outside
  | [], _ => ⟨[], .nil⟩
  | s :: t, h => by
      rw [List.foldl_cons] at h
      cases hs : isQuote s with
      | false =>
          rw [Level.step_outside hs] at h
          obtain ⟨outside, ht⟩ := exists_outsideQuotes t h
          exact ⟨s :: outside, .outside hs ht⟩
      | true =>
          rw [Level.step_quote hs] at h
          obtain ⟨content, rest, outside, rfl, hcontent, hrest⟩ := exists_closing_quote t h
          exact ⟨outside, .quoted hs hcontent hrest⟩

/-- An open quote is closed by the first one like it. -/
theorem exists_closing_quote {d e : Int} {q : Sym} :
    ∀ t : Text, t.foldl Level.step ⟨d, some q⟩ = ⟨e, none⟩ →
      ∃ content rest outside, t = content ++ q :: rest ∧ q ∉ content ∧ OutsideQuotes rest outside
  | [], h => by cases h
  | s :: t, h => by
      rw [List.foldl_cons] at h
      by_cases hs : s = q
      · rw [hs, Level.step_closingQuote] at h
        obtain ⟨outside, ht⟩ := exists_outsideQuotes t h
        exact ⟨[], t, outside, by rw [hs]; rfl, List.not_mem_nil, ht⟩
      · rw [Level.step_quoted hs] at h
        obtain ⟨content, rest, outside, rfl, hcontent, hrest⟩ := exists_closing_quote t h
        exact ⟨s :: content, rest, outside, rfl,
          List.not_mem_cons_of_ne_of_not_mem (Ne.symm hs) hcontent, hrest⟩

end

/-- **A scan is at the top level exactly behind the texts that lead there.** -/
theorem isTop_foldl_step (t : Text) : (t.foldl Level.step {}).isTop ↔ ReachesTop t := by
  rw [Level.isTop_iff]
  constructor
  · intro h
    obtain ⟨outside, ht⟩ := exists_outsideQuotes t h
    have hdepth : 0 + bracketDepth outside = 0 :=
      congrArg Level.depth ((ht.foldl_step 0).symm.trans h)
    rw [bracketDepth_eq_countP] at hdepth
    exact ⟨outside, ht, by omega⟩
  · rintro ⟨outside, ht, hcount⟩
    rw [ht.foldl_step 0, bracketDepth_eq_countP, hcount, Int.sub_self]
    rfl

/-! ## Cuts -/

variable {sep : Sym}

theorem cutsAt_iff (hsep : IsPlain sep) {l : Level} {s : Sym} :
    cutsAt sep l s ↔ s = sep ∧ l.isTop := by
  simp only [cutsAt, Bool.and_eq_true, decide_eq_true_eq, and_iff_left_iff_imp, and_imp]
  rintro rfl htop
  rw [Level.isTop_iff.1 htop]
  exact Level.step_plain hsep

/-- A separator that cuts begins a piece, and does not change the level. -/
theorem piecesFrom_cons_of_cutsAt {l : Level} {s : Sym} (h : cutsAt sep l s) (t : Text) :
    s = sep ∧ l.step s = l ∧ piecesFrom sep l (s :: t) = [] :: piecesFrom sep l t := by
  refine ⟨?_, ?_, by rw [piecesFrom, if_pos h]⟩ <;>
    simp only [cutsAt, Bool.and_eq_true, decide_eq_true_eq] at h
  · exact h.1.1
  · exact h.2

/-- Nothing is lost: the pieces with the separators between them are the text. -/
theorem join_piecesFrom (sep : Sym) (l : Level) (t : Text) :
    Text.join [sep] (piecesFrom sep l t) = t := by
  induction t generalizing l with
  | nil => rfl
  | cons s t ih =>
      by_cases hcut : cutsAt sep l s
      · obtain ⟨rfl, -, hpieces⟩ := piecesFrom_cons_of_cutsAt hcut t
        obtain ⟨p, ps, hne⟩ := exists_piecesFrom_eq_cons s l t
        rw [hpieces, join_cons [s] [] (by simp [hne]), ih]
        rfl
      · obtain ⟨p, ps, hrest⟩ := exists_piecesFrom_eq_cons sep (l.step s) t
        have hjoin := ih (l.step s)
        rw [hrest] at hjoin
        rw [piecesFrom_cons_of_not_cutsAt (Bool.eq_false_iff.2 hcut) hrest]
        cases ps with
        | nil => exact congrArg (s :: ·) hjoin
        | cons q ps =>
            rw [join_cons _ _ (List.cons_ne_nil q ps)] at hjoin ⊢
            exact congrArg (s :: ·) hjoin

theorem cutOffsets_nil_cons {ps : List Text} (h : ps ≠ []) :
    cutOffsets ([] :: ps) = 0 :: (cutOffsets ps).map (· + 1) := by
  obtain ⟨p, ps, rfl⟩ := List.exists_cons_of_ne_nil h
  simp only [cutOffsets, List.length_nil, Nat.zero_add, Nat.add_comm 1]

theorem cutOffsets_cons_cons (s : Sym) (p : Text) (ps : List Text) :
    cutOffsets ((s :: p) :: ps) = (cutOffsets (p :: ps)).map (· + 1) := by
  cases ps with
  | nil => rfl
  | cons q ps =>
      simp only [cutOffsets, List.map_cons, List.map_map, List.length_cons]
      congr 1
      refine List.map_congr_left fun i _ => ?_
      simp only [Function.comp_apply]
      omega

/-- **A separator cuts where the scan is at the top level.** -/
theorem mem_cutOffsets_piecesFrom (hsep : IsPlain sep) (l : Level) (t : Text) (i : Nat) :
    i ∈ cutOffsets (piecesFrom sep l t) ↔
      t[i]? = some sep ∧ ((t.take i).foldl Level.step l).isTop := by
  induction t generalizing l i with
  | nil => simp [piecesFrom, cutOffsets]
  | cons s t ih =>
      obtain ⟨p, ps, hrest⟩ := exists_piecesFrom_eq_cons sep (l.step s) t
      have hlater : ∀ j, j ∈ cutOffsets (p :: ps) ↔
          t[j]? = some sep ∧ ((t.take j).foldl Level.step (l.step s)).isTop := by
        intro j
        rw [← hrest]
        exact ih (l.step s) j
      -- The cuts behind the first symbol are the same, one symbol further on.
      have hoffsets : cutOffsets (piecesFrom sep l (s :: t)) =
          (if cutsAt sep l s then [0] else []) ++ (cutOffsets (p :: ps)).map (· + 1) := by
        by_cases hcut : cutsAt sep l s
        · obtain ⟨-, hstep, hpieces⟩ := piecesFrom_cons_of_cutsAt hcut t
          rw [hstep] at hrest
          rw [hpieces, hrest, if_pos hcut, cutOffsets_nil_cons (List.cons_ne_nil p ps)]
          rfl
        · rw [piecesFrom_cons_of_not_cutsAt (Bool.eq_false_iff.2 hcut) hrest, if_neg hcut,
            cutOffsets_cons_cons, List.nil_append]
      rw [hoffsets]
      cases i with
      | zero =>
          rw [List.mem_append, List.getElem?_cons_zero, List.take_zero, List.foldl_nil,
            Option.some_inj, ← cutsAt_iff hsep]
          simp
      | succ j =>
          rw [List.mem_append, List.getElem?_cons_succ, List.take_succ_cons, List.foldl_cons,
            ← hlater]
          simp

/-- **The parts of a list in type notation are what stands between the separators at the top
level.**  For every text and every separator that is neither a bracket nor a quote, the text is cut
into raw pieces with one separator between each two of them; the parts are these without the white
space around them, in their order; and the cuts are exactly the separators outside of quotes before
which, outside of quotes, as many brackets were closed as opened. -/
theorem parts_cut_at_top_level (hsep : IsPlain sep) (t : Text) :
    ∃ raw : List Text, raw ≠ [] ∧ Text.join [sep] raw = t ∧ parts sep t = raw.map trim ∧
      ∀ i, i ∈ cutOffsets raw ↔ t[i]? = some sep ∧ ReachesTop (t.take i) := by
  refine ⟨pieces sep t, pieces_ne_nil sep t, join_piecesFrom sep {} t, rfl, fun i => ?_⟩
  rw [pieces, mem_cutOffsets_piecesFrom hsep, isTop_foldl_step]

/-- A list whose first bracket closes nothing and whose last literal is not closed. -/
def unbalancedList : Text :=
  "a], b[ ,c,'d,e"

/-- The bracket that is closed first is made up for by the next one, so that the second comma cuts;
behind the quote nothing does. -/
theorem parts_cut_at_top_level_unbalanced :
    IsPlain (.char ',') ∧ parts (.char ',') unbalancedList = ["a], b[", "c", "'d,e"] ∧
      ∃ raw : List Text, raw ≠ [] ∧ Text.join [.char ','] raw = unbalancedList ∧
        raw.map trim = ["a], b[", "c", "'d,e"] ∧
        7 ∈ cutOffsets raw ∧ 2 ∉ cutOffsets raw ∧ 12 ∉ cutOffsets raw := by
  have hsep : IsPlain (.char ',') := ⟨rfl, rfl, rfl⟩
  have hlist : parts (.char ',') unbalancedList = ["a], b[", "c", "'d,e"] := by decide
  obtain ⟨raw, hne, hjoin, hraw, hcuts⟩ := parts_cut_at_top_level hsep unbalancedList
  refine ⟨hsep, hlist, raw, hne, hjoin, hraw.symm.trans hlist, ?_, ?_, ?_⟩ <;>
    rw [hcuts, ← isTop_foldl_step] <;> decide

end RubyDoc.Signature
