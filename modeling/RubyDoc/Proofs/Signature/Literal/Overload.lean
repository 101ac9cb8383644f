import RubyDoc.Proofs.Signature.Literal.DocType

/-!
# The first overload of requoted method types

The search for a further overload looks for a bar outside brackets behind an arrow, and it looks
between quotes too.  Behind an arrow, opaque contents do not end it.  Before the arrow a literal
outside brackets may hold an arrow of its own, so that requoted texts are no longer cut at the same
bar behind it.  This does no harm, since nothing of a method type is read behind such a literal: the
first overloads are alike (`Alike`) in what stands in front of it.
-/

namespace RubyDoc.Signature

open Text

/-! ## Passing over contents -/

/-- The search passes over a part in which no bar begins an overload, and which is not looked at for
arrows: one was seen before, or the part stands within brackets. -/
theorem overloadFrom_append (arrow : Bool) {c u : Text} {d : Int}
    (hbars : arrow → ∀ before behind, c = before ++ .char '|' :: behind →
      d + bracketDepth before = 0 → opensOverload (behind ++ u) = false)
    (harrows : arrow = false → ∀ before, before <+: c → d + bracketDepth before ≠ 0) :
    overloadFrom d arrow (c ++ u) = c ++ overloadFrom (d + bracketDepth c) arrow u := by
  induction c generalizing d with
  | nil => simp
  | cons s c ih =>
      have hstays : ¬ (d = 0 ∧ arrow ∧ s = .char '|' ∧ opensOverload (c ++ u)) := by
        rintro ⟨rfl, harrow, rfl, hopens⟩
        rw [hbars harrow [] c rfl rfl] at hopens
        cases hopens
      have hseen (found : Bool) : (arrow || (d == 0 && found)) = arrow := by
        cases arrow with
        | true => rfl
        | false =>
            have hd := harrows rfl [] List.nil_prefix
            rw [bracketDepth_nil, Int.add_zero] at hd
            simp [hd]
      have hrest := ih (d := d + bracketStep s)
        (fun harrow before behind hc hdepth => hbars harrow (s :: before) behind
          (by rw [hc, List.cons_append]) (by rw [bracketDepth_cons]; omega))
        (fun harrow before hbefore => by
          have hcons := harrows harrow (s :: before) (List.cons_prefix_cons.2 ⟨rfl, hbefore⟩)
          rw [bracketDepth_cons] at hcons
          omega)
      rw [List.cons_append, overloadFrom, if_neg hstays]
      simp only [Bool.and_assoc, hseen]
      rw [hrest, bracketDepth_cons, Int.add_assoc]
      rfl

theorem opensOverload_iff {t : Text} :
    opensOverload t ↔
      t.trimLeft.head? = some (.char '(') ∨ t.trimLeft.head? = some (.char '[') := by
  rw [opensOverload, Bool.or_eq_true]
  exact Iff.or startsWith_singleton startsWith_singleton

/-- A quote opens no overload, and hides one that stands behind it. -/
theorem not_opensOverload_append_quote {t : Text} (ht : opensOverload t = false) {q : Sym}
    (hq : isQuote q) (u : Text) : opensOverload (t ++ q :: u) = false := by
  by_cases hblank : isBlank t
  · rw [opensOverload_append_left hblank]
    exact not_opensOverload_cons (isOpening_of_quote hq)
      (isBlank_of_mem_delimiters (mem_delimiters_of_quote hq)) u
  · have hne : t.trimLeft ≠ [] := fun hnil =>
      hblank (List.all_eq_true.2 (List.dropWhile_eq_nil_iff.1 hnil))
    rw [Bool.eq_false_iff, Ne, opensOverload_iff] at ht ⊢
    rwa [trimLeft_append, if_neg hblank, List.head?_append_of_ne_nil _ hne]

theorem overloadFrom_quote {q : Sym} (hq : isQuote q) (d : Int) (arrow : Bool) (t : Text) :
    overloadFrom d arrow (q :: t) = q :: overloadFrom d arrow t := by
  have hbar : q ≠ .char '|' := by
    rintro rfl
    cases hq
  have hdash : q ≠ .char '-' := by
    rintro rfl
    cases hq
  rw [overloadFrom, if_neg (by simp [hbar])]
  simp [hdash, bracketStep_of_quote hq]

/-- No part of a literal closes a bracket that stands in front of it. -/
theorem IsLiteral.nested {q : Sym} {c : Text} (hc : IsLiteral q c) :
    IsNested (q :: (c ++ [q])) := by
  intro before hbefore
  cases before with
  | nil => exact Int.le_refl 0
  | cons r before =>
      obtain ⟨rfl, hrest⟩ := List.cons_prefix_cons.1 hbefore
      rw [bracketDepth_cons, bracketStep_of_quote hc.quote, Int.zero_add]
      rcases List.prefix_concat_iff.1 hrest with rfl | hrest
      · simp [bracketDepth_append, hc.isOpaque.balanced, bracketDepth_cons,
          bracketStep_of_quote hc.quote]
      · exact hc.isOpaque.nested before hrest

/-- A literal behind an arrow, or within brackets, is passed over. -/
theorem overloadFrom_literal {q : Sym} {c : Text} (hc : IsLiteral q c) {d : Int} (hd : 0 ≤ d)
    {arrow : Bool} (hseen : arrow = false → d ≠ 0) (t : Text) :
    overloadFrom d arrow (q :: (c ++ q :: t)) = q :: (c ++ q :: overloadFrom d arrow t) := by
  have hcontent := overloadFrom_append arrow (c := c) (u := q :: t) (d := d)
    (fun _ before behind heq hdepth => by
      have hnested := hc.isOpaque.nested before (heq ▸ List.prefix_append _ _)
      have hbar := hc.isOpaque.bars before behind heq (by omega)
      exact not_opensOverload_append_quote hbar hc.quote t)
    (fun harrow before hbefore => by
      have hnested := hc.isOpaque.nested before hbefore
      have hpos := hseen harrow
      omega)
  rw [overloadFrom_quote hc.quote, hcontent, hc.isOpaque.balanced, Int.add_zero,
    overloadFrom_quote hc.quote]

/-! ## Where two texts begin to differ -/

/-- What may stand before an arrow, from `d` open brackets on: it closes these brackets and no
others, and has no arrow outside of them. -/
structure HeadFrom (d : Int) (t : Text) : Prop where
  nested : ∀ before, before <+: t → 0 ≤ d + bracketDepth before
  closed : d + bracketDepth t = 0
  arrows : ∀ before behind, t = before ++ .char '-' :: .char '>' :: behind →
    d + bracketDepth before ≠ 0

namespace HeadFrom

theorem nil : HeadFrom 0 [] where
  nested before hbefore := by
    rw [List.prefix_nil.1 hbefore]
    decide
  closed := rfl
  arrows before behind h := by simp at h

theorem cons {d : Int} {s : Sym} {t : Text} (h : HeadFrom (d + bracketStep s) t) (hd : 0 ≤ d)
    (harrow : d = 0 → s = .char '-' → t.head? ≠ some (.char '>')) : HeadFrom d (s :: t) where
  nested before hbefore := by
    cases before with
    | nil => simpa using hd
    | cons r before =>
        obtain ⟨rfl, hrest⟩ := List.cons_prefix_cons.1 hbefore
        have hdepth := h.nested before hrest
        rw [bracketDepth_cons]
        omega
  closed := by
    have hrest := h.closed
    rw [bracketDepth_cons]
    omega
  arrows before behind heq := by
    cases before with
    | nil =>
        obtain ⟨rfl, rfl⟩ := List.cons.inj heq
        intro hzero
        exact harrow (by simpa using hzero) rfl rfl
    | cons r before =>
        obtain ⟨rfl, hrest⟩ := List.cons.inj heq
        have hdepth := h.arrows before behind hrest
        rw [bracketDepth_cons]
        omega

/-- Within brackets anything may stand that closes none of them. -/
theorem append {d : Int} {v t : Text} (h : HeadFrom (d + bracketDepth v) t)
    (hv : ∀ before, before <+: v → 1 ≤ d + bracketDepth before) : HeadFrom d (v ++ t) := by
  induction v generalizing d with
  | nil => simpa using h
  | cons s v ih =>
      have hd : 1 ≤ d := by simpa using hv [] List.nil_prefix
      rw [bracketDepth_cons, ← Int.add_assoc] at h
      refine .cons (ih h fun before hbefore => ?_) (by omega) (fun hzero => by omega)
      have hcons := hv (s :: before) (List.cons_prefix_cons.2 ⟨rfl, hbefore⟩)
      rw [bracketDepth_cons] at hcons
      omega

/-- What stands behind a beginning that closes what it opens. -/
theorem drop {v t : Text} (h : HeadFrom 0 (v ++ t)) (hv : bracketDepth v = 0) : HeadFrom 0 t where
  nested before hbefore := by
    have hall := h.nested (v ++ before) ((List.prefix_append_right_inj v).2 hbefore)
    rwa [bracketDepth_append, hv, Int.zero_add] at hall
  closed := by
    have hall := h.closed
    rwa [bracketDepth_append, hv, Int.zero_add] at hall
  arrows before behind heq := by
    have hall := h.arrows (v ++ before) behind (by rw [heq, List.append_assoc])
    rwa [bracketDepth_append, hv, Int.zero_add] at hall

end HeadFrom

/-- Requoted, or requoted up to a literal outside brackets and before any arrow. -/
inductive AlikeFrom (d : Int) : Text → Text → Prop
  | whole {t u : Text} (h : Requoted t u) : AlikeFrom d t u
  | upTo {p p' : Text} {q : Sym} (t u : Text) (h : Requoted p p') (hp : HeadFrom d p)
      (hq : isQuote q) : AlikeFrom d (p ++ q :: t) (p' ++ q :: u)

/-- No more of a method type is read in one text than in the other. -/
abbrev Alike := AlikeFrom 0

namespace AlikeFrom

variable {d : Int} {s : Sym} {t u : Text}

/-- In front of both texts stands one symbol that does not begin an arrow outside brackets. -/
theorem plain (hs : isQuote s = false) (hd : 0 ≤ d)
    (harrow : ¬ (d = 0 ∧ s = .char '-' ∧ t.head? = some (.char '>')))
    (h : AlikeFrom (d + bracketStep s) t u) : AlikeFrom d (s :: t) (s :: u) := by
  cases h with
  | whole h => exact .whole (.plain hs h)
  | @upTo p p' q x y h hp hq =>
      have hplain : Requoted (s :: p) (s :: p') := .plain hs h
      refine .upTo x y hplain (hp.cons hd fun hzero hdash hgreater =>
        harrow ⟨hzero, hdash, ?_⟩) hq
      rw [List.head?_append, hgreater]
      rfl

/-- In front of both texts, within brackets, stands a literal. -/
theorem literal {q : Sym} {c c' : Text} (hc : IsLiteral q c) (hc' : IsLiteral q c') (hd : 1 ≤ d)
    (h : AlikeFrom d t u) : AlikeFrom d (q :: (c ++ q :: t)) (q :: (c' ++ q :: u)) := by
  cases h with
  | whole h => exact .whole (.literal hc hc' h)
  | @upTo p p' r x y h hp hr =>
      have hdepth : bracketDepth (q :: (c ++ [q])) = 0 := by
        simp [bracketDepth_cons, bracketDepth_append, bracketStep_of_quote hc.quote,
          hc.isOpaque.balanced]
      have hhead : HeadFrom d (q :: (c ++ [q]) ++ p) :=
        .append (by rwa [hdepth, Int.add_zero]) fun before hbefore => by
          have hnested := hc.nested before hbefore
          omega
      simpa using AlikeFrom.upTo x y (.literal hc hc' h) (by simpa using hhead) hr

end AlikeFrom

/-! ## The first overload -/

namespace Requoted

variable {t u : Text}

theorem opensOverload_eq (h : Requoted t u) : opensOverload t = opensOverload u := by
  rw [opensOverload, opensOverload, h.trimLeft.startsWith_eq "(" (by decide),
    h.trimLeft.startsWith_eq "[" (by decide)]

/-- What follows a symbol closes no more brackets than are open behind it. -/
theorem nested_cons {d : Int} {s : Sym}
    (hd : ∀ before, before <+: s :: t → 0 ≤ d + bracketDepth before) :
    ∀ before, before <+: t → 0 ≤ d + bracketStep s + bracketDepth before := fun before hbefore => by
  have hcons := hd (s :: before) (List.cons_prefix_cons.2 ⟨rfl, hbefore⟩)
  rw [bracketDepth_cons] at hcons
  omega

theorem nested_literal {d : Int} {q : Sym} {c : Text} (hc : IsLiteral q c)
    (hd : ∀ before, before <+: q :: (c ++ q :: t) → 0 ≤ d + bracketDepth before) :
    ∀ before, before <+: t → 0 ≤ d + bracketDepth before := fun before hbefore => by
  have hall := hd (q :: (c ++ q :: before)) (by
    rw [List.cons_prefix_cons, List.prefix_append_right_inj, List.cons_prefix_cons]
    exact ⟨rfl, rfl, hbefore⟩)
  simpa only [bracketDepth_cons, bracketDepth_append, bracketStep_of_quote hc.quote,
    hc.isOpaque.balanced, Int.zero_add] using hall

/-- Behind an arrow, requoted texts are cut at the same bar. -/
theorem overloadFrom_seen (h : Requoted t u) {d : Int}
    (hd : ∀ before, before <+: t → 0 ≤ d + bracketDepth before) :
    Requoted (overloadFrom d true t) (overloadFrom d true u) := by
  induction h generalizing d with
  | nil => exact .nil
  | plain hs h ih =>
      rw [overloadFrom, overloadFrom, h.opensOverload_eq]
      split
      · exact .nil
      · exact .plain hs (ih (nested_cons hd))
  | literal hc hc' h ih =>
      have hpos : 0 ≤ d := by simpa using hd [] List.nil_prefix
      rw [overloadFrom_literal hc hpos (fun h => by cases h),
        overloadFrom_literal hc' hpos (fun h => by cases h)]
      exact .literal hc hc' (ih (nested_literal hc hd))

theorem head?_overloadFrom (d : Int) (t : Text) : (overloadFrom d false t).head? = t.head? := by
  cases t with
  | nil => rfl
  | cons s t =>
      rw [overloadFrom, if_neg (by simp)]
      rfl

/-- Before an arrow, requoted texts begin alike up to the first literal outside brackets. -/
theorem overloadFrom_alike (h : Requoted t u) {d : Int}
    (hd : ∀ before, before <+: t → 0 ≤ d + bracketDepth before) :
    AlikeFrom d (overloadFrom d false t) (overloadFrom d false u) := by
  induction h generalizing d with
  | nil => exact .whole .nil
  | @plain s t u hs h ih =>
      have hpos : 0 ≤ d := by simpa using hd [] List.nil_prefix
      rw [overloadFrom, overloadFrom, if_neg (by simp), if_neg (by simp), ← h.head?_eq]
      by_cases harrow : d = 0 ∧ s = .char '-' ∧ t.head? = some (.char '>')
      · obtain ⟨rfl, rfl, hhead⟩ := harrow
        simp only [hhead]
        exact .whole (.plain hs (h.overloadFrom_seen (nested_cons hd)))
      · have hunseen : (false || (d == 0 && decide (s = .char '-') &&
            decide (t.head? = some (.char '>')))) = false := by
          simpa [and_assoc] using harrow
        simp only [hunseen]
        exact .plain hs hpos (by rwa [head?_overloadFrom]) (ih (nested_cons hd))
  | @literal q c c' t u hc hc' h ih =>
      have hpos : 0 ≤ d := by simpa using hd [] List.nil_prefix
      by_cases hzero : d = 0
      · subst hzero
        rw [overloadFrom_quote hc.quote, overloadFrom_quote hc.quote]
        have hnothing : Requoted [] [] := .nil
        exact .upTo _ _ hnothing .nil hc.quote
      · rw [overloadFrom_literal hc hpos fun _ => hzero,
          overloadFrom_literal hc' hpos fun _ => hzero]
        exact .literal hc hc' (by omega) (ih (nested_literal hc hd))

end Requoted

end RubyDoc.Signature
