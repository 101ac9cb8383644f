import RubyDoc.Signature.Bracket
import RubyDoc.Proofs.Text.Trim

/-!
# Texts that close what they open

A text is closed if every bracket and every quote in it is closed again and quotes enclose neither.
What reads a text symbol by symbol passes over a closed part and comes out at the level where it
went in: a separator that does not stand outside the brackets and quotes of the part does not cut it
(`piecesFrom_append`), and the bracket that closes a level is not found in it
(`closingFrom?_append`).
-/

namespace RubyDoc.Signature

open Text

/-- Neither a bracket nor a quote. -/
structure IsPlain (s : Sym) : Prop where
  opening : isOpening s = false
  closing : isClosing s = false
  quote : isQuote s = false

/-- The brackets and quotes. -/
def delimiters : List Sym :=
  [.char '(', .char '[', .char '\x7b', .char ')', .char ']', .char '\x7d', .char '"', .char '\'']

theorem isPlain_of_notMem {s : Sym} (h : s ∉ delimiters) : IsPlain s := by
  simp only [delimiters, List.mem_cons, List.not_mem_nil, or_false, not_or] at h
  constructor <;> simp [isOpening, isClosing, isQuote, h]

theorem mem_delimiters_of_opening {s : Sym} (h : isOpening s) : s ∈ delimiters := by
  simp only [isOpening, Bool.or_eq_true, decide_eq_true_eq] at h
  rcases h with (rfl | rfl) | rfl <;> decide

theorem mem_delimiters_of_closing {s : Sym} (h : isClosing s) : s ∈ delimiters := by
  simp only [isClosing, Bool.or_eq_true, decide_eq_true_eq] at h
  rcases h with (rfl | rfl) | rfl <;> decide

theorem mem_delimiters_of_quote {s : Sym} (h : isQuote s) : s ∈ delimiters := by
  simp only [isQuote, Bool.or_eq_true, decide_eq_true_eq] at h
  rcases h with rfl | rfl <;> decide

theorem isBlank_of_mem_delimiters {s : Sym} (h : s ∈ delimiters) : s.isBlank = false :=
  (by decide : ∀ c ∈ delimiters, c.isBlank = false) s h

theorem isWord_of_mem_delimiters {s : Sym} (h : s ∈ delimiters) : s.isWord = false :=
  (by decide : ∀ c ∈ delimiters, c.isWord = false) s h

/-- A symbol of some class is none of those that are not in the class. -/
theorem notMem_of_class {p : Sym → Bool} {s : Sym} (h : p s) {others : List Sym}
    (hothers : ∀ c ∈ others, p c = false) : s ∉ others := by
  intro hmem
  rw [hothers s hmem] at h
  cases h

/-- A text that closes the brackets and quotes it opens, with none of the symbols `cuts` outside of
them. -/
inductive Closed : (cuts : List Sym) → Text → Prop
  | nil {cuts : List Sym} : Closed cuts []
  | plain {cuts : List Sym} {s : Sym} {t : Text} (hs : IsPlain s) (hcuts : s ∉ cuts)
      (ht : Closed cuts t) : Closed cuts (s :: t)
  | bracket {cuts : List Sym} {o c : Sym} {inner t : Text} (ho : isOpening o) (hc : isClosing c)
      (hinner : Closed [] inner) (ht : Closed cuts t) : Closed cuts (o :: (inner ++ c :: t))
  | quoted {cuts : List Sym} {q : Sym} {content t : Text} (hq : isQuote q)
      (hcontent : ∀ s ∈ content, IsPlain s) (ht : Closed cuts t) :
      Closed cuts (q :: (content ++ q :: t))

namespace Closed

variable {cuts : List Sym} {t u : Text}

theorem append (ht : Closed cuts t) (hu : Closed cuts u) : Closed cuts (t ++ u) := by
  induction ht with
  | nil => exact hu
  | plain hs hcuts _ ih => exact .plain hs hcuts (ih hu)
  | @bracket _ o c inner t ho hc hinner _ _ ih =>
      rw [List.cons_append, List.append_assoc]
      exact .bracket ho hc hinner (ih hu)
  | @quoted _ q content t hq hcontent _ ih =>
      rw [List.cons_append, List.append_assoc]
      exact .quoted hq hcontent (ih hu)

theorem mono {cuts' : List Sym} (ht : Closed cuts t) (h : cuts' ⊆ cuts) : Closed cuts' t := by
  induction ht with
  | nil => exact .nil
  | plain hs hcuts _ ih => exact .plain hs (fun hmem => hcuts (h hmem)) (ih h)
  | bracket ho hc hinner _ _ ih => exact .bracket ho hc hinner (ih h)
  | quoted hq hcontent _ ih => exact .quoted hq hcontent (ih h)

theorem cons {s : Sym} (h : s ∉ delimiters ++ cuts) (ht : Closed cuts t) :
    Closed cuts (s :: t) := by
  rw [List.mem_append, not_or] at h
  exact .plain (isPlain_of_notMem h.1) h.2 ht

theorem of_notMem (h : ∀ s ∈ t, s ∉ delimiters ++ cuts) : Closed cuts t := by
  induction t with
  | nil => exact .nil
  | cons s t ih =>
      obtain ⟨hs, ht⟩ := List.forall_mem_cons.1 h
      exact .cons hs (ih ht)

/-- A text of symbols of some class, none of which is a bracket, a quote or one of `cuts`. -/
theorem of_class {p : Sym → Bool} (h : ∀ s ∈ t, p s)
    (hothers : ∀ c ∈ delimiters ++ cuts, p c = false) : Closed cuts t :=
  .of_notMem fun s hs => notMem_of_class (h s hs) hothers

theorem of_isBlank (ht : isBlank t) (hcuts : ∀ c ∈ cuts, c.isBlank = false) : Closed cuts t := by
  refine .of_notMem fun s hs => notMem_of_class (List.all_eq_true.1 ht s hs) fun c hc => ?_
  rcases List.mem_append.1 hc with hc | hc
  · exact isBlank_of_mem_delimiters hc
  · exact hcuts c hc

theorem join {sep : Text} (hsep : Closed cuts sep) {ts : List Text} (h : ∀ t ∈ ts, Closed cuts t) :
    Closed cuts (Text.join sep ts) := by
  induction ts with
  | nil => exact .nil
  | cons t ts ih =>
      obtain ⟨ht, hts⟩ := List.forall_mem_cons.1 h
      cases ts with
      | nil => exact ht
      | cons u rest => exact (ht.append hsep).append (ih hts)

end Closed

/-! ## Steps -/

theorem bracketStep_of_opening {s : Sym} (h : isOpening s) : bracketStep s = 1 := by
  rw [bracketStep, if_pos h]

theorem bracketStep_of_closing {s : Sym} (h : isClosing s) : bracketStep s = -1 := by
  simp only [isClosing, Bool.or_eq_true, decide_eq_true_eq] at h
  rcases h with (rfl | rfl) | rfl <;> rfl

theorem bracketStep_of_quote {s : Sym} (h : isQuote s) : bracketStep s = 0 := by
  simp only [isQuote, Bool.or_eq_true, decide_eq_true_eq] at h
  rcases h with rfl | rfl <;> rfl

theorem isClosing_of_opening {s : Sym} (h : isOpening s) : isClosing s = false := by
  simp only [isOpening, Bool.or_eq_true, decide_eq_true_eq] at h
  rcases h with (rfl | rfl) | rfl <;> rfl

theorem isClosing_of_quote {s : Sym} (h : isQuote s) : isClosing s = false := by
  simp only [isQuote, Bool.or_eq_true, decide_eq_true_eq] at h
  rcases h with rfl | rfl <;> rfl

theorem isOpening_of_quote {s : Sym} (h : isQuote s) : isOpening s = false := by
  simp only [isQuote, Bool.or_eq_true, decide_eq_true_eq] at h
  rcases h with rfl | rfl <;> rfl

theorem isQuote_of_opening {s : Sym} (h : isOpening s) : isQuote s = false := by
  simp only [isOpening, Bool.or_eq_true, decide_eq_true_eq] at h
  rcases h with (rfl | rfl) | rfl <;> rfl

theorem isQuote_of_closing {s : Sym} (h : isClosing s) : isQuote s = false := by
  simp only [isClosing, Bool.or_eq_true, decide_eq_true_eq] at h
  rcases h with (rfl | rfl) | rfl <;> rfl

theorem IsPlain.bracketStep_eq {s : Sym} (h : IsPlain s) : bracketStep s = 0 := by
  rw [bracketStep, if_neg (by simp [h.opening]), if_neg (by simp [h.closing])]

/-! ## The number of open brackets -/

theorem foldl_bracketStep (t : Text) (d : Int) :
    t.foldl (fun depth s => depth + bracketStep s) d = d + bracketDepth t := by
  induction t generalizing d with
  | nil => exact (Int.add_zero d).symm
  | cons s t ih =>
      have hs : bracketDepth (s :: t) = 0 + bracketStep s + bracketDepth t := ih _
      rw [List.foldl_cons, ih, hs]
      omega

theorem bracketDepth_append (t u : Text) :
    bracketDepth (t ++ u) = bracketDepth t + bracketDepth u := by
  rw [bracketDepth, List.foldl_append, foldl_bracketStep u]
  rfl

@[simp] theorem bracketDepth_nil : bracketDepth [] = 0 := rfl

theorem bracketDepth_cons (s : Sym) (t : Text) :
    bracketDepth (s :: t) = bracketStep s + bracketDepth t := by
  rw [← List.singleton_append, bracketDepth_append, bracketDepth, List.foldl_cons, List.foldl_nil,
    Int.zero_add]

theorem bracketDepth_of_isBlank {w : Text} (h : isBlank w) : bracketDepth w = 0 := by
  induction w with
  | nil => rfl
  | cons s w ih =>
      obtain ⟨hs, hw⟩ := List.forall_mem_cons.1 (List.all_eq_true.1 h)
      have hplain : IsPlain s := isPlain_of_notMem fun hmem => by
        rw [isBlank_of_mem_delimiters hmem] at hs
        cases hs
      rw [bracketDepth_cons, hplain.bracketStep_eq, ih (List.all_eq_true.2 hw)]
      rfl

@[simp] theorem bracketDepth_trim (t : Text) : bracketDepth (trim t) = bracketDepth t := by
  obtain ⟨left, right, hleft, hright, heq⟩ := exists_eq_append_trim t
  conv_rhs => rw [heq]
  rw [bracketDepth_append, bracketDepth_append, bracketDepth_of_isBlank hleft,
    bracketDepth_of_isBlank hright]
  omega

theorem bracketDepth_join {sep : Text} (hsep : bracketDepth sep = 0) {ts : List Text}
    (h : ∀ t ∈ ts, bracketDepth t = 0) : bracketDepth (Text.join sep ts) = 0 := by
  induction ts with
  | nil => rfl
  | cons t ts ih =>
      obtain ⟨ht, hts⟩ := List.forall_mem_cons.1 h
      cases ts with
      | nil => exact ht
      | cons u rest =>
          rw [Text.join, bracketDepth_append, bracketDepth_append, ht, hsep, ih hts]
          rfl

namespace Level

variable {d : Int} {s : Sym}

theorem step_outside (h : isQuote s = false) :
    (⟨d, none⟩ : Level).step s = ⟨d + bracketStep s, none⟩ := by
  simp [step, h]

theorem step_plain (h : IsPlain s) : (⟨d, none⟩ : Level).step s = ⟨d, none⟩ := by
  rw [step_outside h.quote, h.bracketStep_eq, Int.add_zero]

theorem step_opening (h : isOpening s) : (⟨d, none⟩ : Level).step s = ⟨d + 1, none⟩ := by
  rw [step_outside (isQuote_of_opening h), bracketStep_of_opening h]

theorem step_closing (h : isClosing s) : (⟨d + 1, none⟩ : Level).step s = ⟨d, none⟩ := by
  have hdepth : d + 1 + -1 = d := by omega
  rw [step_outside (isQuote_of_closing h), bracketStep_of_closing h, hdepth]

theorem step_quote (h : isQuote s) : (⟨d, none⟩ : Level).step s = ⟨d, some s⟩ := by
  simp [step, h]

theorem step_quoted {q : Sym} (h : s ≠ q) : (⟨d, some q⟩ : Level).step s = ⟨d, some q⟩ := by
  simp [step, h]

theorem step_closingQuote (q : Sym) : (⟨d, some q⟩ : Level).step q = ⟨d, none⟩ := by
  simp [step]

end Level

theorem Level.foldl_step_quoted {d : Int} {q : Sym} {content : Text}
    (h : ∀ s ∈ content, s ≠ q) : content.foldl step ⟨d, some q⟩ = ⟨d, some q⟩ := by
  induction content with
  | nil => rfl
  | cons s content ih =>
      obtain ⟨hs, hcontent⟩ := List.forall_mem_cons.1 h
      rw [List.foldl_cons, step_quoted hs, ih hcontent]

theorem ne_of_isPlain {q : Sym} (hq : isQuote q) {content : Text}
    (h : ∀ s ∈ content, IsPlain s) : ∀ s ∈ content, s ≠ q := by
  rintro s hs rfl
  rw [(h s hs).quote] at hq
  cases hq

/-- A closed text leads back to the level that it starts from. -/
theorem Closed.foldl_step {cuts : List Sym} {t : Text} (h : Closed cuts t) (d : Int) :
    t.foldl Level.step ⟨d, none⟩ = ⟨d, none⟩ := by
  induction h generalizing d with
  | nil => rfl
  | plain hs _ _ ih => rw [List.foldl_cons, Level.step_plain hs, ih]
  | bracket ho hc _ _ ihinner ih =>
      rw [List.foldl_cons, Level.step_opening ho, List.foldl_append, ihinner, List.foldl_cons,
        Level.step_closing hc, ih]
  | @quoted _ q content t hq hcontent _ ih =>
      rw [List.foldl_cons, Level.step_quote hq, List.foldl_append,
        Level.foldl_step_quoted (ne_of_isPlain hq hcontent), List.foldl_cons,
        Level.step_closingQuote, ih]

/-- What is enclosed, and what follows it. -/
theorem enclosed_append (o c : Sym) (inner t u : Text) :
    o :: (inner ++ c :: t) ++ u = o :: (inner ++ c :: (t ++ u)) := by
  simp

/-! ## Pieces -/

variable {sep : Sym} {cuts : List Sym}

theorem piecesFrom_cons_of_not_cutsAt {l : Level} {s : Sym} {t p : Text} {ps : List Text}
    (hcut : cutsAt sep l s = false) (h : piecesFrom sep (l.step s) t = p :: ps) :
    piecesFrom sep l (s :: t) = (s :: p) :: ps := by
  rw [piecesFrom, hcut, if_neg Bool.false_ne_true, h]

/-- Between quotes nothing cuts. -/
theorem piecesFrom_quoted {d : Int} {q : Sym} {content u p : Text} {ps : List Text}
    (hcontent : ∀ s ∈ content, s ≠ q) (h : piecesFrom sep ⟨d, none⟩ u = p :: ps) :
    piecesFrom sep ⟨d, some q⟩ (content ++ q :: u) = (content ++ q :: p) :: ps := by
  induction content with
  | nil =>
      refine piecesFrom_cons_of_not_cutsAt (by simp [cutsAt, Level.isTop]) ?_
      rwa [Level.step_closingQuote]
  | cons s content ih =>
      obtain ⟨hs, hcontent⟩ := List.forall_mem_cons.1 hcontent
      refine piecesFrom_cons_of_not_cutsAt (by simp [cutsAt, Level.isTop]) ?_
      rw [Level.step_quoted hs]
      exact ih hcontent

/-- A closed text is part of the piece that begins before it, if the separator is none of its
symbols outside brackets, or if it stands in brackets itself. -/
theorem piecesFrom_append {t u p : Text} {ps : List Text} {d : Int} (ht : Closed cuts t)
    (hd : 0 < d ∨ d = 0 ∧ sep ∈ cuts) (hu : piecesFrom sep ⟨d, none⟩ u = p :: ps) :
    piecesFrom sep ⟨d, none⟩ (t ++ u) = (t ++ p) :: ps := by
  induction ht generalizing d u p with
  | nil => exact hu
  | @plain cuts s t hs hcuts _ ih =>
      have hcut : cutsAt sep ⟨d, none⟩ s = false := by
        rcases hd with hd | ⟨-, hsep⟩
        · have hd' : d ≠ 0 := by omega
          simp [cutsAt, Level.isTop, hd']
        · have hne : s ≠ sep := fun h => hcuts (h ▸ hsep)
          simp [cutsAt, hne]
      refine piecesFrom_cons_of_not_cutsAt hcut ?_
      rw [Level.step_plain hs]
      exact ih hd hu
  | @bracket cuts o c inner t ho hc _ _ ihinner ih =>
      -- Neither bracket cuts, since it changes the level.
      have hopen : cutsAt sep ⟨d, none⟩ o = false := by
        have hstep : d + 1 ≠ d := by omega
        simp [cutsAt, Level.step_opening ho, hstep]
      have hclose : cutsAt sep ⟨d + 1, none⟩ c = false := by
        have hstep : d ≠ d + 1 := by omega
        simp [cutsAt, Level.step_closing hc, hstep]
      rw [enclosed_append, enclosed_append]
      refine piecesFrom_cons_of_not_cutsAt hopen ?_
      rw [Level.step_opening ho]
      refine ihinner (Or.inl (by omega)) (piecesFrom_cons_of_not_cutsAt hclose ?_)
      rw [Level.step_closing hc]
      exact ih hd hu
  | @quoted cuts q content t hq hcontent _ ih =>
      have hopen : cutsAt sep ⟨d, none⟩ q = false := by
        simp [cutsAt, Level.step_quote hq]
      have hne := ne_of_isPlain hq hcontent
      rw [enclosed_append, enclosed_append]
      refine piecesFrom_cons_of_not_cutsAt hopen ?_
      rw [Level.step_quote hq]
      exact piecesFrom_quoted hne (ih hd hu)

theorem pieces_of_closed {t : Text} (h : Closed cuts t) (hsep : sep ∈ cuts) :
    pieces sep t = [t] := by
  have hpieces : piecesFrom sep {} (t ++ []) = [t ++ []] :=
    piecesFrom_append h (Or.inr ⟨rfl, hsep⟩) rfl
  rwa [List.append_nil] at hpieces

/-- A separator outside brackets and quotes cuts. -/
theorem pieces_cons_sep (hsep : IsPlain sep) (t : Text) :
    pieces sep (sep :: t) = [] :: pieces sep t := by
  have hcut : cutsAt sep {} sep := by
    simp [cutsAt, Level.isTop, Level.step_plain hsep]
  rw [pieces, piecesFrom, if_pos hcut, pieces]

theorem exists_piecesFrom_eq_cons (sep : Sym) (l : Level) (t : Text) :
    ∃ p ps, piecesFrom sep l t = p :: ps := by
  refine List.exists_cons_of_ne_nil fun h => ?_
  have hextent := extent_piecesFrom sep l t
  rw [h, extent] at hextent
  omega

theorem pieces_ne_nil (sep : Sym) (t : Text) : pieces sep t ≠ [] := by
  obtain ⟨p, ps, hpieces⟩ := exists_piecesFrom_eq_cons sep {} t
  rw [pieces, hpieces]
  exact List.cons_ne_nil p ps

theorem length_piecesFrom_cons (sep : Sym) (l : Level) (s : Sym) (t : Text) :
    (piecesFrom sep (l.step s) t).length ≤ (piecesFrom sep l (s :: t)).length := by
  rw [piecesFrom]
  split
  · rename_i hcut
    have hstep : l.step s = l := by
      simp only [cutsAt, Bool.and_eq_true, decide_eq_true_eq] at hcut
      exact hcut.2
    rw [hstep, List.length_cons]
    omega
  · split <;> simp_all

/-- What follows a part of a text, read from the level behind the part, has no more pieces than the
text. -/
theorem length_piecesFrom_append (sep : Sym) (l : Level) (t u : Text) :
    (piecesFrom sep (t.foldl Level.step l) u).length ≤ (piecesFrom sep l (t ++ u)).length := by
  induction t generalizing l with
  | nil => exact Nat.le_refl _
  | cons s t ih => exact Nat.le_trans (ih _) (length_piecesFrom_cons sep l s (t ++ u))

/-- A separator behind a closed text cuts. -/
theorem one_lt_length_pieces {t : Text} (ht : Closed cuts t) (hsep : IsPlain sep) (u : Text) :
    1 < (pieces sep (t ++ sep :: u)).length := by
  have hle := length_piecesFrom_append sep {} t (sep :: u)
  have hcut := pieces_cons_sep hsep u
  have hrest := List.length_pos_iff.2 (pieces_ne_nil sep u)
  rw [pieces] at hcut
  rw [ht.foldl_step, hcut, List.length_cons] at hle
  rw [pieces]
  omega

/-- A list is cut into its members where they do not hold the separator outside of brackets. -/
theorem parts_join (left right : Text) (hleft : isBlank left) (hright : isBlank right)
    (hsep : IsPlain sep) (hsepBlank : sep.isBlank = false) {ts : List Text} (hne : ts ≠ [])
    (hts : ∀ t ∈ ts, Closed [sep] t ∧ trim t = t) :
    parts sep (Text.join (left ++ sep :: right) ts) = ts := by
  have hcuts : sep ∈ [sep] := List.mem_singleton_self sep
  have hblank {w : Text} (hw : isBlank w) : Closed [sep] w :=
    .of_isBlank hw (List.forall_mem_singleton.2 hsepBlank)
  induction ts with
  | nil => exact absurd rfl hne
  | cons t ts ih =>
      obtain ⟨⟨hclosed, htrim⟩, hrest⟩ := List.forall_mem_cons.1 hts
      cases ts with
      | nil => rw [Text.join, parts, pieces_of_closed hclosed hcuts, List.map_singleton, htrim]
      | cons u rest =>
          have hparts := ih (by simp) hrest
          rw [Text.join]
          generalize Text.join (left ++ sep :: right) (u :: rest) = more at hparts ⊢
          obtain ⟨p, ps, hpieces⟩ := List.exists_cons_of_ne_nil (pieces_ne_nil sep more)
          rw [parts, hpieces] at hparts
          -- What pads the separator joins the pieces beside it, and trimming takes it off again.
          have hmore := piecesFrom_append (hblank hright) (Or.inr ⟨rfl, hcuts⟩) hpieces
          have hcut := pieces_cons_sep hsep (right ++ more)
          rw [pieces, pieces, hmore] at hcut
          have hall := piecesFrom_append (hclosed.append (hblank hleft)) (Or.inr ⟨rfl, hcuts⟩) hcut
          simp only [List.append_assoc, List.cons_append, List.append_nil] at hall ⊢
          rw [parts, pieces, hall, List.map_cons, List.map_cons, trim_append_right hleft, htrim,
            trim_append_left hright, ← List.map_cons, hparts]

/-! ## Closing brackets -/

theorem closingFrom?_cons {d : Int} {s : Sym} {t : Text} (h : ¬ (isClosing s ∧ d = 1)) :
    closingFrom? d (s :: t) = (closingFrom? (d + bracketStep s) t).map (· + 1) := by
  rw [closingFrom?, if_neg h]

theorem closingFrom?_plain {d : Int} {t : Text} (h : ∀ s ∈ t, IsPlain s) (u : Text) :
    closingFrom? d (t ++ u) = (closingFrom? d u).map (· + t.length) := by
  induction t with
  | nil => simp
  | cons s t ih =>
      obtain ⟨hs, ht⟩ := List.forall_mem_cons.1 h
      rw [List.cons_append, closingFrom?_cons (by simp [hs.closing]), hs.bracketStep_eq,
        Int.add_zero, ih ht, Option.map_map]
      rfl

/-- The bracket that closes a level outside is behind a closed text. -/
theorem closingFrom?_append {t : Text} {d : Int} (ht : Closed cuts t) (hd : 1 ≤ d) (u : Text) :
    closingFrom? d (t ++ u) = (closingFrom? d u).map (· + t.length) := by
  induction ht generalizing d u with
  | nil => simp
  | @plain _ s t hs _ _ ih =>
      rw [List.cons_append, closingFrom?_cons (by simp [hs.closing]), hs.bracketStep_eq,
        Int.add_zero, ih hd, Option.map_map]
      rfl
  | @bracket _ o c inner t ho hc _ _ ihinner ih =>
      have hopen : ¬ (isClosing o ∧ d = 1) := by simp [isClosing_of_opening ho]
      have hclose : ¬ (isClosing c ∧ d + 1 = 1) := by omega
      rw [enclosed_append, closingFrom?_cons hopen,
        bracketStep_of_opening ho, ihinner (by omega), closingFrom?_cons hclose,
        bracketStep_of_closing hc, show d + 1 + -1 = d by omega, ih hd]
      simp only [Option.map_map]
      congr 1
      funext n
      simp only [Function.comp_apply, List.length_cons, List.length_append]
      omega
  | @quoted _ q content t hq hcontent _ ih =>
      have hquote : ¬ (isClosing q ∧ d = 1) := by simp [isClosing_of_quote hq]
      rw [enclosed_append, closingFrom?_cons hquote,
        bracketStep_of_quote hq, Int.add_zero, closingFrom?_plain hcontent,
        closingFrom?_cons hquote, bracketStep_of_quote hq, Int.add_zero, ih hd]
      simp only [Option.map_map]
      congr 1
      funext n
      simp only [Function.comp_apply, List.length_cons, List.length_append]
      omega

/-- A bracket is closed behind the closed text that follows it. -/
theorem closing?_bracket {o c : Sym} {inner : Text} (ho : isOpening o) (hc : isClosing c)
    (hinner : Closed cuts inner) (u : Text) :
    closing? (o :: (inner ++ c :: u)) = some (inner.length + 1) := by
  have hopen : ¬ (isClosing o ∧ (0 : Int) = 1) := by omega
  rw [closing?, closingFrom?_cons hopen, bracketStep_of_opening ho, Int.zero_add,
    closingFrom?_append hinner (by omega), closingFrom?, if_pos ⟨hc, rfl⟩,
    Option.map_some, Option.map_some, Nat.zero_add]

end RubyDoc.Signature
