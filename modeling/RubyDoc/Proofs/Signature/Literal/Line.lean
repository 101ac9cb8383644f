import RubyDoc.Proofs.Signature.Literal.MethodType
import RubyDoc.Proofs.Signature.Declaration

/-!
# Lines that differ between quotes

A comment may hold quotes without a partner, so lines are compared up to their comments.  What a
line opens or closes shows in front of its first literal or behind the last one.
-/

namespace RubyDoc.Signature

open Text

/-! ## Comments -/

/-- The same comment, if any, behind code that is requoted. -/
inductive LineRequoted : Text → Text → Prop
  | intro {code code' comment : Text} (h : Requoted code code')
      (hcomment : ∀ s ∈ comment.head?, s = .char '#') :
      LineRequoted (code ++ comment) (code' ++ comment)

theorem beforeComment_quoted {q : Sym} {c : Text} (hq : q ∉ c) (d : Int) (t : Text) :
    beforeComment ⟨d, some q⟩ (c ++ q :: t) = c ++ q :: beforeComment ⟨d, none⟩ t := by
  induction c with
  | nil => simp [beforeComment, Level.step]
  | cons s c ih =>
      rw [List.mem_cons, not_or] at hq
      rw [List.cons_append, beforeComment, if_neg (by simp)]
      simpa [Level.step, Ne.symm hq.1] using ih hq.2

theorem requoted_beforeComment {code code' comment : Text} (h : Requoted code code')
    (hcomment : ∀ s ∈ comment.head?, s = .char '#') (d : Int) :
    Requoted (beforeComment ⟨d, none⟩ (code ++ comment))
      (beforeComment ⟨d, none⟩ (code' ++ comment)) := by
  induction h generalizing d with
  | nil =>
      cases comment with
      | nil => exact .nil
      | cons s comment =>
          obtain rfl := hcomment s rfl
          exact .nil
  | @plain s t u hs h ih =>
      rw [List.cons_append, List.cons_append, beforeComment, beforeComment,
        Level.step_outside hs]
      split
      · exact .nil
      · exact .plain hs (ih _)
  | @literal q c c' t u hc hc' h ih =>
      have hread {c t : Text} (hc : IsLiteral q c) :
          beforeComment ⟨d, none⟩ (q :: (c ++ q :: t) ++ comment) =
            q :: (c ++ q :: beforeComment ⟨d, none⟩ (t ++ comment)) := by
        have hhash : q ≠ .char '#' := by
          rintro rfl
          cases hc.quote
        rw [enclosed_append, beforeComment, if_neg fun hcut => hhash hcut.2,
          Level.step_quote hc.quote, beforeComment_quoted hc.ends]
      rw [hread hc, hread hc']
      exact .literal hc hc' (ih d)

/-- What the reader makes of the lines before it looks at them is requoted. -/
theorem requoted_trim_withoutComment {line line' : Text} (h : LineRequoted line line') :
    Requoted (trim (withoutComment line)) (trim (withoutComment line')) := by
  cases h with
  | intro h hcomment => exact (requoted_beforeComment h hcomment 0).trim

/-! ## Blocks -/

section Blocks

variable {t u : Text}

theorem afterKeyword?_rel (h : Requoted t u) {keyword : Text} (hkeyword : IsUnquoted keyword) :
    Option.Rel Requoted (Declaration.afterKeyword? keyword t)
      (Declaration.afterKeyword? keyword u) := by
  have hrest := h.after?_rel keyword hkeyword
  rw [Declaration.afterKeyword?, Declaration.afterKeyword?]
  generalize after? keyword t = rest at hrest
  generalize after? keyword u = rest' at hrest
  cases hrest with
  | none => exact .none
  | some h =>
      cases h with
      | nil => exact .none
      | plain hs h =>
          dsimp only
          split
          · exact .some h.trimLeft
          · exact .none
      | @literal q _ _ _ _ hc _ _ =>
          have hblank := isBlank_of_mem_delimiters (mem_delimiters_of_quote hc.quote)
          simp only [hblank, if_neg Bool.false_ne_true]
          exact .none

theorem endsBlock_iff {t : Text} : Declaration.endsBlock t ↔
    ∃ before s, s.isBlank ∧ t = before ++ [s, .char 'e', .char 'n', .char 'd'] := by
  rw [Declaration.endsBlock]
  constructor
  · intro h
    split at h
    · rename_i d n e s rest hreverse
      rw [Bool.and_eq_true, decide_eq_true_eq] at h
      obtain ⟨rfl, rfl, rfl⟩ : e = .char 'e' ∧ n = .char 'n' ∧ d = .char 'd' := by
        simpa [Text.ofString] using h.1
      refine ⟨rest.reverse, s, h.2, ?_⟩
      rw [← List.reverse_reverse t, hreverse]
      simp
    · cases h
  · rintro ⟨before, s, hs, rfl⟩
    simp [Text.ofString, hs]

/-- A literal cannot end a line with a word of its own. -/
theorem endsBlock_of_endsBlock (h : Requoted t u) (hends : Declaration.endsBlock t) :
    Declaration.endsBlock u := by
  obtain ⟨before, s, hs, rfl⟩ := endsBlock_iff.1 hends
  have hunquoted : IsUnquoted [s, .char 'e', .char 'n', .char 'd'] :=
    List.forall_mem_cons.2 ⟨isQuote_of_isBlank hs, by decide⟩
  obtain ⟨before', rfl, -⟩ := h.exists_append hunquoted
  exact endsBlock_iff.2 ⟨before', s, hs, rfl⟩

theorem endsBlock_eq (h : Requoted t u) : Declaration.endsBlock t = Declaration.endsBlock u :=
  Bool.eq_iff_iff.2 ⟨endsBlock_of_endsBlock h, endsBlock_of_endsBlock h.symm⟩

theorem path?_eq_of_requoted (h : Requoted t u) : Declaration.path? t = Declaration.path? u := by
  have hhead := (rel_getD (h.after?_rel "::" (by decide)) h).head?_eq
  rw [Declaration.path?, Declaration.path?, hhead, (h.span fun _ => isPathSym_of_quote).1]

theorem opening?_eq (h : Requoted t u) : Declaration.opening? t = Declaration.opening? u := by
  have hkeywords : ∀ kind : BlockKind, IsUnquoted kind.keyword := fun kind => by
    cases kind <;> decide
  have hkind (kind : BlockKind) :
      (do
        let name ← Declaration.path? (← Declaration.afterKeyword? kind.keyword t)
        return Declaration.opening ⟨kind, name⟩ (Declaration.endsBlock t)) =
      do
        let name ← Declaration.path? (← Declaration.afterKeyword? kind.keyword u)
        return Declaration.opening ⟨kind, name⟩ (Declaration.endsBlock u) := by
    have hrest := afterKeyword?_rel h (hkeywords kind)
    rw [endsBlock_eq h]
    generalize Declaration.afterKeyword? kind.keyword t = rest at hrest
    generalize Declaration.afterKeyword? kind.keyword u = rest' at hrest
    cases hrest with
    | none => rfl
    | some hrest =>
        simp only [Option.bind_eq_bind, Option.bind_some, path?_eq_of_requoted hrest]
  exact congrArg (BlockKind.all.findSome? ·) (funext hkind)

theorem closing?_eq (h : Requoted t u) : Declaration.closing? t = Declaration.closing? u := by
  have hword {t u : Text} (h : Requoted t u) : endsWord t = endsWord u := by
    cases h with
    | nil | plain | literal => rfl
  have hrest := h.after?_rel "end" (by decide)
  rw [Declaration.closing?, Declaration.closing?]
  generalize after? "end" t = rest at hrest
  generalize after? "end" u = rest' at hrest
  cases hrest with
  | none => rfl
  | some hrest =>
      dsimp only
      rw [hword hrest]

end Blocks

end RubyDoc.Signature
