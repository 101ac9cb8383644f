import Mathlib.Data.List.Forall2
import RubyDoc.Proofs.Signature.Overload

/-!
# Texts that differ between quotes

Two texts are requoted (`Requoted`) if they are the same outside of their string literals.  What
looks at a text from outside its literals sees the same in both: the first and the last symbol,
white space at the ends, a beginning without quotes, and the pieces between separators.

Brackets are counted between quotes as well.  The contents of the literals are therefore opaque
(`IsOpaque`): they close the brackets that they open and no others, and no bar in them stands where
a further overload would begin.  Such contents are passed over by the search for a closing bracket.
-/

namespace RubyDoc.Signature

open Text

/-- A symbol that is not of some class ends what begins with symbols of the class. -/
theorem span_append {p : Sym → Bool} {s : Sym} (hs : p s = false) (l t : Text) :
    (l ++ s :: t).takeWhile p = l.takeWhile p ∧
      (l ++ s :: t).dropWhile p = l.dropWhile p ++ s :: t := by
  induction l with
  | nil =>
      exact ⟨List.takeWhile_cons_of_neg (by simp [hs]), List.dropWhile_cons_of_neg (by simp [hs])⟩
  | cons r l ih =>
      rw [List.cons_append, List.takeWhile_cons, List.takeWhile_cons, List.dropWhile_cons,
        List.dropWhile_cons]
      split
      · exact ⟨congrArg (r :: ·) ih.1, ih.2⟩
      · exact ⟨rfl, rfl⟩

theorem trimLeft_append_quote {q : Sym} (hq : isQuote q) (l t : Text) :
    trimLeft (l ++ q :: t) = trimLeft l ++ q :: t :=
  (span_append (isBlank_of_mem_delimiters (mem_delimiters_of_quote hq)) l t).2

/-! ## Contents of literals -/

/-- No bracket is closed in the text that was not opened in it. -/
def IsNested (t : Text) : Prop :=
  ∀ before, before <+: t → 0 ≤ bracketDepth before

/-- What may stand between quotes unseen.  No bracket is closed that was not opened, none stays
open, and no bar outside the brackets stands before one that opens an overload. -/
structure IsOpaque (content : Text) : Prop where
  nested : IsNested content
  balanced : bracketDepth content = 0
  bars : ∀ before behind, content = before ++ .char '|' :: behind → bracketDepth before = 0 →
    opensOverload behind = false

theorem isQuote_of_isBlank {s : Sym} (h : s.isBlank) : isQuote s = false := by
  refine Bool.eq_false_iff.2 fun hs => ?_
  rw [isBlank_of_mem_delimiters (mem_delimiters_of_quote hs)] at h
  cases h

/-- A literal in one line: a quote, and a content without it. -/
structure IsLiteral (q : Sym) (content : Text) : Prop where
  quote : isQuote q
  ends : q ∉ content
  inLine : .lineFeed ∉ content
  isOpaque : IsOpaque content

/-- No symbol of the text is a quote. -/
def IsUnquoted (t : Text) : Prop :=
  ∀ s ∈ t, isQuote s = false

instance (t : Text) : Decidable (IsUnquoted t) :=
  inferInstanceAs (Decidable (∀ s ∈ t, _))

/-- The same text outside of the literals, and a literal in one where there is one in the other. -/
inductive Requoted : Text → Text → Prop
  | nil : Requoted [] []
  | plain {s : Sym} {t u : Text} (hs : isQuote s = false) (h : Requoted t u) :
      Requoted (s :: t) (s :: u)
  | literal {q : Sym} {c c' t u : Text} (hc : IsLiteral q c) (hc' : IsLiteral q c')
      (h : Requoted t u) : Requoted (q :: (c ++ q :: t)) (q :: (c' ++ q :: u))

namespace Requoted

variable {t u : Text} {s : Sym}

theorem symm (h : Requoted t u) : Requoted u t := by
  induction h with
  | nil => exact .nil
  | plain hs _ ih => exact .plain hs ih
  | literal hc hc' _ ih => exact .literal hc' hc ih

theorem of_isUnquoted (h : IsUnquoted t) : Requoted t t := by
  induction t with
  | nil => exact .nil
  | cons s t ih =>
      obtain ⟨hs, ht⟩ := List.forall_mem_cons.1 h
      exact .plain hs (ih ht)

/-- Without a quote there is nothing that could differ. -/
theorem eq_of_isUnquoted (h : Requoted t u) (ht : IsUnquoted t) : u = t := by
  induction h with
  | nil => rfl
  | plain _ _ ih => rw [ih (List.forall_mem_cons.1 ht).2]
  | literal hc _ _ _ =>
      have hquote := hc.quote
      rw [(List.forall_mem_cons.1 ht).1] at hquote
      cases hquote

theorem append (h : Requoted t u) {t' u' : Text} (h' : Requoted t' u') :
    Requoted (t ++ t') (u ++ u') := by
  induction h with
  | nil => exact h'
  | plain hs _ ih => exact .plain hs ih
  | literal hc hc' _ ih =>
      simp only [List.cons_append, List.append_assoc]
      exact .literal hc hc' ih

/-! ### Beginnings -/

theorem head?_eq (h : Requoted t u) : t.head? = u.head? := by
  cases h with
  | nil | plain | literal => rfl

theorem eq_nil_iff (h : Requoted t u) : t = [] ↔ u = [] := by
  cases h with
  | nil => exact Iff.rfl
  | plain | literal => exact iff_of_false (List.cons_ne_nil _ _) (List.cons_ne_nil _ _)

theorem exists_cons (h : Requoted (s :: t) u) (hs : isQuote s = false) :
    ∃ u', u = s :: u' ∧ Requoted t u' := by
  cases h with
  | plain _ h => exact ⟨_, rfl, h⟩
  | literal hc =>
      have hquote := hc.quote
      rw [hs] at hquote
      cases hquote

/-- What follows a beginning without quotes. -/
theorem after?_rel (h : Requoted t u) (head : Text) (hhead : IsUnquoted head) :
    Option.Rel Requoted (after? head t) (after? head u) := by
  induction head generalizing t u with
  | nil => exact .some h
  | cons a head ih =>
      obtain ⟨ha, hhead⟩ := List.forall_mem_cons.1 hhead
      cases h with
      | nil => exact .none
      | plain hs h =>
          rw [after?, after?]
          split
          · exact ih h hhead
          · exact .none
      | literal hc hc' h =>
          have hne : ∀ {rest : Text}, after? (a :: head) (_ :: rest) = none := fun {rest} =>
            after?_eq_none_of_head (fun hq => by
              rw [List.head?_cons, Option.some.injEq] at hq
              rw [← hq, hc.quote] at ha
              cases ha) head
          rw [hne, hne]
          exact .none

theorem startsWith_eq_isSome (t head : Text) : t.startsWith head = (after? head t).isSome := by
  rw [Bool.eq_iff_iff, startsWith_iff, Option.isSome_iff_exists]
  simp only [after?_eq_some_iff]

theorem startsWith_eq (h : Requoted t u) (head : Text) (hhead : IsUnquoted head) :
    t.startsWith head = u.startsWith head := by
  have hrel := h.after?_rel head hhead
  rw [startsWith_eq_isSome, startsWith_eq_isSome]
  generalize after? head t = rest at hrel
  generalize after? head u = rest' at hrel
  cases hrel with
  | some | none => rfl

/-- Up to the first symbol that is not of some class without quotes. -/
theorem span (h : Requoted t u) {p : Sym → Bool} (hp : ∀ s, isQuote s → p s = false) :
    t.takeWhile p = u.takeWhile p ∧ Requoted (t.dropWhile p) (u.dropWhile p) := by
  induction h with
  | nil => exact ⟨rfl, .nil⟩
  | @plain s t u hs h ih =>
      rw [List.takeWhile_cons, List.takeWhile_cons, List.dropWhile_cons, List.dropWhile_cons]
      split
      · exact ⟨congrArg (s :: ·) ih.1, ih.2⟩
      · exact ⟨rfl, .plain hs h⟩
  | literal hc hc' h _ =>
      have hq := hp _ hc.quote
      rw [List.takeWhile_cons_of_neg (by simp [hq]), List.takeWhile_cons_of_neg (by simp [hq]),
        List.dropWhile_cons_of_neg (by simp [hq]), List.dropWhile_cons_of_neg (by simp [hq])]
      exact ⟨rfl, .literal hc hc' h⟩

/-! ### Ends -/

theorem getLast?_eq (h : Requoted t u) : t.getLast? = u.getLast? := by
  induction h with
  | nil => rfl
  | @plain s t u hs h ih =>
      rw [List.getLast?_cons, List.getLast?_cons, ih]
  | @literal q c c' t u hc hc' h ih =>
      have hlast (c t : Text) : (q :: (c ++ q :: t)).getLast? = some (t.getLast?.getD q) := by
        rw [List.getLast?_cons, List.getLast?_append, List.getLast?_cons]
        simp
      rw [hlast, hlast, ih]

theorem exists_concat (h : Requoted (t ++ [s]) u) (hs : isQuote s = false) :
    ∃ u', u = u' ++ [s] ∧ Requoted t u' := by
  generalize hw : t ++ [s] = w at h
  induction h generalizing t with
  | nil => simp at hw
  | @plain r w u hr h ih =>
      cases t with
      | nil =>
          obtain ⟨rfl, rfl⟩ : r = s ∧ w = [] := by simpa using hw.symm
          rw [h.eq_nil_iff.1 rfl]
          exact ⟨[], rfl, .nil⟩
      | cons _ t =>
          obtain ⟨rfl, htail⟩ := List.cons.inj hw
          obtain ⟨u', rfl, hu'⟩ := ih htail
          exact ⟨_ :: u', rfl, .plain hr hu'⟩
  | @literal q c c' w u hc hc' h ih =>
      -- The end stands behind the literal, since the literal ends with a quote.
      obtain rfl | ⟨w, x, rfl⟩ := w.eq_nil_or_concat'
      · have hend : t ++ [s] = q :: c ++ [q] := hw
        obtain ⟨-, hsq⟩ := List.append_inj' hend rfl
        rw [(List.singleton_inj.1 hsq), hc.quote] at hs
        cases hs
      · have hend : t ++ [s] = q :: (c ++ q :: w) ++ [x] := by simp [hw]
        obtain ⟨rfl, hsx⟩ := List.append_inj' hend rfl
        obtain ⟨u', rfl, hu'⟩ := ih (by rw [List.singleton_inj.1 hsx])
        exact ⟨q :: (c' ++ q :: u'), by simp, .literal hc hc' hu'⟩

/-- An end without quotes is the end of both texts. -/
theorem exists_append {v : Text} (h : Requoted (t ++ v) u) (hv : IsUnquoted v) :
    ∃ u', u = u' ++ v ∧ Requoted t u' := by
  induction v generalizing t with
  | nil => exact ⟨u, (List.append_nil u).symm, by rwa [List.append_nil] at h⟩
  | cons s v ih =>
      obtain ⟨hs, hv⟩ := List.forall_mem_cons.1 hv
      rw [List.append_cons] at h
      obtain ⟨w, rfl, hw⟩ := ih h hv
      obtain ⟨u', rfl, hu'⟩ := hw.exists_concat hs
      exact ⟨u', by simp, hu'⟩

theorem trimLeft (h : Requoted t u) : Requoted t.trimLeft u.trimLeft :=
  (h.span fun _ hs => isBlank_of_mem_delimiters (mem_delimiters_of_quote hs)).2

theorem trimRight (h : Requoted t u) : Requoted t.trimRight u.trimRight := by
  obtain ⟨w, hw, htext⟩ := exists_eq_trimRight_append t
  have hunquoted : IsUnquoted w := fun s hs =>
    isQuote_of_isBlank (List.all_eq_true.1 hw s hs)
  rw [htext] at h
  obtain ⟨u', rfl, hu'⟩ := h.exists_append hunquoted
  -- The rest of the other text has the same last symbol, which is not white space.
  have hlast : u'.trimRight = u' := trimRight_of_last fun s hs =>
    last_trimRight (t := t) (hu'.getLast?_eq.trans hs)
  rwa [trimRight_append, if_pos hw, hlast]

theorem trim (h : Requoted t u) : Requoted t.trim u.trim :=
  h.trimLeft.trimRight

/-- A last symbol that is no quote comes off both texts. -/
theorem dropLast (h : Requoted t u) (hlast : t.getLast? = some s) (hs : isQuote s = false) :
    Requoted t.dropLast u.dropLast := by
  obtain ⟨before, rfl⟩ := List.getLast?_eq_some_iff.1 hlast
  obtain ⟨before', rfl, hbefore⟩ := h.exists_concat hs
  rwa [List.dropLast_concat, List.dropLast_concat]

theorem endsWith_of_endsWith (h : Requoted t u) {tail : Text} (htail : IsUnquoted tail)
    (hends : t.endsWith tail) : u.endsWith tail := by
  obtain ⟨before, rfl⟩ := List.isSuffixOf_iff_suffix.1 hends
  obtain ⟨before', rfl, -⟩ := h.exists_append htail
  exact List.isSuffixOf_iff_suffix.2 (List.suffix_append before' tail)

theorem endsWith_eq (h : Requoted t u) (tail : Text) (htail : IsUnquoted tail) :
    t.endsWith tail = u.endsWith tail :=
  Bool.eq_iff_iff.2 ⟨h.endsWith_of_endsWith htail, h.symm.endsWith_of_endsWith htail⟩

/-! ### The whole of it -/

theorem one_lt_length_iff (h : Requoted t u) : 1 < t.length ↔ 1 < u.length := by
  cases h with
  | nil => exact Iff.rfl
  | plain _ h =>
      simp only [List.length_cons, Nat.lt_add_left_iff_pos, List.length_pos_iff, ne_eq,
        h.eq_nil_iff]
  | literal =>
      simp only [List.length_cons, List.length_append]
      omega

theorem lineFeed_mem_iff (h : Requoted t u) : .lineFeed ∈ t ↔ .lineFeed ∈ u := by
  induction h with
  | nil => exact Iff.rfl
  | plain _ _ ih => simp only [List.mem_cons, ih]
  | literal hc hc' _ ih =>
      simp only [List.mem_cons, List.mem_append, hc.inLine, hc'.inLine, ih]

theorem bracketDepth_eq (h : Requoted t u) : bracketDepth t = bracketDepth u := by
  induction h with
  | nil => rfl
  | plain _ _ ih => rw [bracketDepth_cons, bracketDepth_cons, ih]
  | literal hc hc' _ ih =>
      simp only [bracketDepth_cons, bracketDepth_append, hc.isOpaque.balanced,
        hc'.isOpaque.balanced, ih]

/-! ### Pieces -/

/-- Both texts are cut at the same separators. -/
theorem forall₂_piecesFrom (h : Requoted t u) (sep : Sym) (d : Int) :
    List.Forall₂ Requoted (piecesFrom sep ⟨d, none⟩ t) (piecesFrom sep ⟨d, none⟩ u) := by
  induction h generalizing d with
  | nil => exact .cons .nil .nil
  | @plain s t u hs h ih =>
      rw [piecesFrom, piecesFrom]
      split
      · exact .cons .nil (ih d)
      · rw [Level.step_outside hs]
        have hrest := ih (d + bracketStep s)
        generalize piecesFrom sep ⟨d + bracketStep s, none⟩ t = ps at hrest ⊢
        generalize piecesFrom sep ⟨d + bracketStep s, none⟩ u = ps' at hrest ⊢
        cases hrest with
        | nil => exact .cons (.plain hs .nil) .nil
        | cons hp hps => exact .cons (.plain hs hp) hps
  | @literal q c c' t u hc hc' h ih =>
      -- The quote is in the piece that goes on behind the closing one.
      have hcut : cutsAt sep ⟨d, none⟩ q = false := by
        simp [cutsAt, Level.step_quote hc.quote]
      have hquoted {c t p : Text} {ps : List Text} (hc : IsLiteral q c)
          (hp : piecesFrom sep ⟨d, none⟩ t = p :: ps) :
          piecesFrom sep ⟨d, none⟩ (q :: (c ++ q :: t)) = (q :: (c ++ q :: p)) :: ps := by
        refine piecesFrom_cons_of_not_cutsAt hcut ?_
        rw [Level.step_quote hc.quote]
        refine piecesFrom_quoted (fun s hs hq => hc.ends ?_) hp
        rwa [← hq]
      have hrest := ih d
      obtain ⟨p, ps, hp⟩ := exists_piecesFrom_eq_cons sep ⟨d, none⟩ t
      obtain ⟨p', ps', hp'⟩ := exists_piecesFrom_eq_cons sep ⟨d, none⟩ u
      rw [hp, hp'] at hrest
      cases hrest with
      | cons hfirst hlater =>
          rw [hquoted hc hp, hquoted hc' hp']
          exact .cons (.literal hc hc' hfirst) hlater

theorem forall₂_parts (h : Requoted t u) (sep : Sym) :
    List.Forall₂ Requoted (parts sep t) (parts sep u) := by
  rw [parts, parts, List.forall₂_map_left_iff, List.forall₂_map_right_iff]
  exact (h.forall₂_piecesFrom sep 0).imp fun _ _ => trim

end Requoted

/-! ## Closing brackets -/

/-- Before a bracket is closed that was open before it, a part is passed over. -/
theorem closingFrom?_nested {c : Text} {d : Int}
    (h : ∀ before, before <+: c → 1 ≤ d + bracketDepth before) (t : Text) :
    closingFrom? d (c ++ t) = (closingFrom? (d + bracketDepth c) t).map (· + c.length) := by
  induction c generalizing d with
  | nil => simp
  | cons s c ih =>
      have hstep (before : Text) (hbefore : before <+: c) :
          1 ≤ d + bracketStep s + bracketDepth before := by
        have hcons := h (s :: before) (List.cons_prefix_cons.2 ⟨rfl, hbefore⟩)
        rw [bracketDepth_cons] at hcons
        omega
      have hopen : ¬ (isClosing s ∧ d = 1) := by
        rintro ⟨hs, rfl⟩
        have hone := hstep [] List.nil_prefix
        rw [bracketStep_of_closing hs] at hone
        exact absurd hone (by decide)
      rw [List.cons_append, closingFrom?_cons hopen, ih hstep, bracketDepth_cons, Option.map_map,
        Int.add_assoc]
      rfl

theorem closingFrom?_quote {d : Int} {q : Sym} (hq : isQuote q) (t : Text) :
    closingFrom? d (q :: t) = (closingFrom? d t).map (· + 1) := by
  rw [closingFrom?_cons (by simp [isClosing_of_quote hq]), bracketStep_of_quote hq, Int.add_zero]

/-- The content of a literal within brackets is passed over. -/
theorem IsOpaque.closingFrom?_append {c : Text} (h : IsOpaque c) {d : Int} (hd : 1 ≤ d) (t : Text) :
    closingFrom? d (c ++ t) = (closingFrom? d t).map (· + c.length) := by
  have hnested (before : Text) (hbefore : before <+: c) : 1 ≤ d + bracketDepth before := by
    have hzero := h.nested before hbefore
    omega
  rw [closingFrom?_nested hnested, h.balanced, Int.add_zero]

/-- Two texts cut in front of one symbol, at the given offsets, into parts that are requoted. -/
inductive CutAlike : Text → Text → Nat → Nat → Prop
  | intro {before before' behind behind' : Text} (s : Sym) (hbefore : Requoted before before')
      (hbehind : Requoted behind behind') :
      CutAlike (before ++ s :: behind) (before' ++ s :: behind') before.length before'.length

theorem CutAlike.prepend {t u : Text} {k k' : Nat} (h : CutAlike t u k k') {p p' : Text}
    (hp : Requoted p p') : CutAlike (p ++ t) (p' ++ u) (k + p.length) (k' + p'.length) := by
  cases h with
  | @intro before before' behind behind' s hbefore hbehind =>
      have hall := CutAlike.intro s (hp.append hbefore) hbehind
      simpa only [List.append_assoc, List.length_append, Nat.add_comm] using hall

/-- Where a symbol does not close the last bracket, one stays open. -/
theorem one_le_add_bracketStep {d : Int} {s : Sym} (hd : 1 ≤ d) (h : ¬ (isClosing s ∧ d = 1)) :
    1 ≤ d + bracketStep s := by
  unfold bracketStep
  split
  · omega
  · split
    · rename_i hs
      have hne : d ≠ 1 := fun hd => h ⟨hs, hd⟩
      omega
    · omega

/-- Within brackets, both texts are closed at the same symbol. -/
theorem Requoted.closingFrom?_rel {t u : Text} (h : Requoted t u) {d : Int} (hd : 1 ≤ d) :
    Option.Rel (CutAlike t u) (closingFrom? d t) (closingFrom? d u) := by
  have hmap {t u p p' : Text} {o o' : Option Nat} (ho : Option.Rel (CutAlike t u) o o')
      (hp : Requoted p p') : Option.Rel (CutAlike (p ++ t) (p' ++ u)) (o.map (· + p.length))
        (o'.map (· + p'.length)) := by
    cases ho with
    | none => exact .none
    | some hcut => exact .some (hcut.prepend hp)
  induction h generalizing d with
  | nil => exact .none
  | @plain s t u hs h ih =>
      by_cases hclose : isClosing s ∧ d = 1
      · rw [closingFrom?, closingFrom?, if_pos hclose, if_pos hclose]
        exact .some (.intro s .nil h)
      · rw [closingFrom?_cons hclose, closingFrom?_cons hclose]
        exact hmap (ih (one_le_add_bracketStep hd hclose)) (.plain hs .nil)
  | @literal q c c' t u hc hc' h ih =>
      have hread {c t : Text} (hc : IsLiteral q c) :
          closingFrom? d (q :: (c ++ q :: t)) =
            (closingFrom? d t).map (· + (q :: (c ++ [q])).length) := by
        rw [closingFrom?_quote hc.quote, hc.isOpaque.closingFrom?_append hd,
          closingFrom?_quote hc.quote]
        simp only [Option.map_map]
        congr 1
        funext n
        simp only [Function.comp_apply, List.length_cons, List.length_append, List.length_nil]
        omega
      rw [hread hc, hread hc']
      have hliteral : Requoted (q :: (c ++ [q])) (q :: (c' ++ [q])) := .literal hc hc' .nil
      have hall := hmap (ih hd) hliteral
      simpa only [List.cons_append, List.append_assoc, List.nil_append] using hall

theorem closing?_cons {s : Sym} (hs : isOpening s) (t : Text) :
    closing? (s :: t) = (closingFrom? 1 t).map (· + 1) := by
  rw [closing?, closingFrom?_cons (by simp [isClosing_of_opening hs]), bracketStep_of_opening hs]
  rfl

/-- A bracket in front of both texts stays open in both or is closed at the same symbol. -/
theorem Requoted.closing?_cases {s : Sym} (hs : isOpening s) {t u : Text} (h : Requoted t u) :
    (closing? (s :: t) = none ∧ closing? (s :: u) = none) ∨
      ∃ before behind before' behind' c, t = before ++ c :: behind ∧ u = before' ++ c :: behind' ∧
        Requoted before before' ∧ Requoted behind behind' ∧
        closing? (s :: t) = some (before.length + 1) ∧
        closing? (s :: u) = some (before'.length + 1) := by
  rw [closing?_cons hs, closing?_cons hs]
  have hrel := h.closingFrom?_rel (Int.le_refl 1)
  generalize closingFrom? 1 t = o at hrel
  generalize closingFrom? 1 u = o' at hrel
  cases hrel with
  | none => exact .inl ⟨rfl, rfl⟩
  | some hcut =>
      cases hcut with
      | @intro before before' behind behind' c hbefore hbehind =>
          exact .inr ⟨before, behind, before', behind', c, rfl, rfl, hbefore, hbehind, rfl, rfl⟩

end RubyDoc.Signature
