import RubyDoc.Proofs.Signature.Literal.Overload
import RubyDoc.Proofs.Signature.MethodType

/-!
# Method types that differ between quotes

Method types that are requoted have parameters and results that are requoted, as far as they are
read.  So they have the same signature, unless it shows a quote (`signatureAgree_ofMethodType`).
-/

namespace RubyDoc.Signature

open Text

/-! ## Closing brackets in one text -/

section Closing

variable {d : Int} {t : Text}

theorem closingFrom?_append_of_some {k : Nat} (h : closingFrom? d t = some k) (u : Text) :
    closingFrom? d (t ++ u) = some k := by
  induction t generalizing d k with
  | nil => cases h
  | cons s t ih =>
      by_cases hclose : isClosing s ∧ d = 1
      · rw [closingFrom?, if_pos hclose] at h
        rw [List.cons_append, closingFrom?, if_pos hclose, h]
      · rw [closingFrom?_cons hclose, Option.map_eq_some_iff] at h
        obtain ⟨n, hn, rfl⟩ := h
        rw [List.cons_append, closingFrom?_cons hclose, ih hn]
        rfl

/-- A text that does not close the brackets before it leaves one open. -/
theorem one_le_of_closingFrom?_eq_none (h : closingFrom? d t = none) (hd : 1 ≤ d) :
    1 ≤ d + bracketDepth t := by
  induction t generalizing d with
  | nil => simpa using hd
  | cons s t ih =>
      by_cases hclose : isClosing s ∧ d = 1
      · rw [closingFrom?, if_pos hclose] at h
        cases h
      · rw [closingFrom?_cons hclose, Option.map_eq_none_iff] at h
        have hrest := ih h (one_le_add_bracketStep hd hclose)
        rw [bracketDepth_cons]
        omega

/-- The bracket that is found, and what stands in front of it. -/
theorem exists_of_closingFrom? {k : Nat} (h : closingFrom? d t = some k)
    (hd : 1 ≤ d) : ∃ before c behind, t = before ++ c :: behind ∧ before.length = k ∧
      isClosing c ∧ d + bracketDepth before = 1 ∧
      ∀ above, above <+: before → 1 ≤ d + bracketDepth above := by
  induction t generalizing d k with
  | nil => cases h
  | cons s t ih =>
      by_cases hclose : isClosing s ∧ d = 1
      · rw [closingFrom?, if_pos hclose, Option.some.injEq] at h
        refine ⟨[], s, t, rfl, h, hclose.1, by simpa using hclose.2, fun above habove => ?_⟩
        rw [List.prefix_nil.1 habove, bracketDepth_nil, Int.add_zero]
        exact hd
      · rw [closingFrom?_cons hclose, Option.map_eq_some_iff] at h
        obtain ⟨n, hn, rfl⟩ := h
        obtain ⟨before, c, behind, rfl, rfl, hc, hdepth, hopen⟩ :=
          ih hn (one_le_add_bracketStep hd hclose)
        refine ⟨s :: before, c, behind, rfl, rfl, hc, ?_, fun above habove => ?_⟩
        · rw [bracketDepth_cons]
          omega
        · cases above with
          | nil => simpa using hd
          | cons r above =>
              obtain ⟨rfl, hbelow⟩ := List.cons_prefix_cons.1 habove
              have hstep := hopen above hbelow
              rw [bracketDepth_cons]
              omega

variable {o c : Sym} {before behind : Text}

theorem enclosed?_cons
    (h : closing? (o :: (before ++ c :: behind)) = some (before.length + 1)) :
    enclosed? [o] (o :: (before ++ c :: behind)) = some (before, trim behind) := by
  have hstart : startsWith (o :: (before ++ c :: behind)) [o] := startsWith_singleton.2 rfl
  rw [enclosed?, if_pos hstart, h]
  simp

theorem enclosed?_of_open (h : closing? (o :: t) = none) : enclosed? [o] (o :: t) = none := by
  rw [enclosed?, h]
  exact ite_self _

end Closing

/-- Behind brackets that are closed, a text begins as if they were not there. -/
theorem HeadFrom.of_closing? {o c : Sym} {before behind : Text} (ho : isOpening o)
    (h : HeadFrom 0 (o :: (before ++ c :: behind)))
    (hclosing : closing? (o :: (before ++ c :: behind)) = some (before.length + 1)) :
    HeadFrom 0 behind := by
  rw [closing?_cons ho, Option.map_eq_some_iff] at hclosing
  obtain ⟨k, hk, hlength⟩ := hclosing
  obtain rfl : k = before.length := by omega
  obtain ⟨_, _, _, heq, hsame, hc, hdepth, -⟩ := exists_of_closingFrom? hk (Int.le_refl 1)
  obtain ⟨rfl, htail⟩ := List.append_inj heq hsame.symm
  obtain ⟨rfl, rfl⟩ := List.cons.inj htail
  refine .drop (v := o :: (before ++ [c])) (by simpa using h) ?_
  rw [bracketDepth_cons, bracketDepth_append, bracketDepth_cons, bracketStep_of_opening ho,
    bracketStep_of_closing hc, bracketDepth_nil]
  omega

/-! ## Parts of a method type -/

theorem exists_trim_quote {q : Sym} (hq : isQuote q) (p t : Text) :
    ∃ t', trim (p ++ q :: t) = trimLeft p ++ q :: t' := by
  have hblank := isBlank_of_mem_delimiters (mem_delimiters_of_quote hq)
  rw [trim, trimLeft_append_quote hq, List.append_cons, trimRight_append]
  split
  · refine ⟨[], trimRight_of_last fun s hs => ?_⟩
    rw [List.getLast?_concat] at hs
    rwa [← Option.some.inj hs]
  · exact ⟨trimRight t, by simp⟩

namespace Alike

variable {t u : Text}

theorem trim (h : Alike t u) : Alike t.trim u.trim := by
  cases h with
  | whole h => exact .whole h.trim
  | @upTo p p' q x y h hp hq =>
      obtain ⟨x', hx⟩ := exists_trim_quote hq p x
      obtain ⟨y', hy⟩ := exists_trim_quote hq p' y
      have hsplit : p.takeWhile Sym.isBlank ++ p.trimLeft = p := List.takeWhile_append_dropWhile
      have hdepth : bracketDepth (p.takeWhile Sym.isBlank) = 0 :=
        bracketDepth_of_isBlank List.all_takeWhile
      rw [hx, hy]
      exact .upTo x' y' h.trimLeft (HeadFrom.drop (by rwa [hsplit]) hdepth) hq

theorem head?_eq (h : Alike t u) : t.head? = u.head? := by
  cases h with
  | whole h => exact h.head?_eq
  | @upTo p p' q x y h hp hq => rw [List.head?_append, List.head?_append, h.head?_eq]; rfl

/-- What brackets enclose is requoted, and what follows them is read alike. -/
theorem enclosed?_rel (h : Alike t u) {o : Sym} (ho : isOpening o) :
    Option.Rel (fun found found' => Requoted found.1 found'.1 ∧ Alike found.2 found'.2)
      (enclosed? [o] t) (enclosed? [o] u) := by
  have hquote := isQuote_of_opening ho
  by_cases hhead : t.head? = some o
  · cases h with
    | whole h =>
        obtain ⟨t, rfl⟩ := List.head?_eq_some_iff.1 hhead
        obtain ⟨u, rfl, hrest⟩ := h.exists_cons hquote
        rcases hrest.closing?_cases ho with ⟨hnone, hnone'⟩ |
          ⟨before, behind, before', behind', c, rfl, rfl, hbefore, hbehind, hsome, hsome'⟩
        · rw [enclosed?_of_open hnone, enclosed?_of_open hnone']
          exact .none
        · rw [enclosed?_cons hsome, enclosed?_cons hsome']
          exact .some ⟨hbefore, .whole hbehind.trim⟩
    | @upTo p p' q x y h hp hq =>
        cases p with
        | nil =>
            rw [← Option.some.inj hhead, hq] at hquote
            cases hquote
        | cons s p =>
            -- The bracket is in the part that is requoted, and so is the one that closes it.
            obtain rfl : s = o := Option.some.inj hhead
            obtain ⟨p', rfl, hrest⟩ := h.exists_cons hquote
            have hdepth := hp.closed
            rw [bracketDepth_cons, bracketStep_of_opening ho] at hdepth
            rcases hrest.closing?_cases ho with ⟨hnone, -⟩ |
              ⟨before, behind, before', behind', c, rfl, rfl, hbefore, hbehind, hsome, hsome'⟩
            · -- As many brackets are closed in front of the literal as are opened.
              rw [closing?_cons ho, Option.map_eq_none_iff] at hnone
              have hopen := one_le_of_closingFrom?_eq_none hnone (Int.le_refl 1)
              omega
            · have hcut := closingFrom?_append_of_some hsome (q :: x)
              have hcut' := closingFrom?_append_of_some hsome' (q :: y)
              simp only [List.cons_append, List.append_assoc] at hcut hcut' ⊢
              rw [enclosed?_cons hcut, enclosed?_cons hcut']
              exact .some ⟨hbefore, .trim (.upTo x y hbehind (hp.of_closing? ho hsome) hq)⟩
  · rw [enclosed?_eq_none hhead, enclosed?_eq_none fun hu => hhead (h.head?_eq.trans hu)]
    exact .none

/-- What follows a mark that is neither bracket nor quote. -/
theorem after?_rel (h : Alike t u) {s : Sym} (hs : IsPlain s) :
    Option.Rel Alike (after? [s] t) (after? [s] u) := by
  by_cases hhead : t.head? = some s
  · cases h with
    | whole h =>
        obtain ⟨t, rfl⟩ := List.head?_eq_some_iff.1 hhead
        obtain ⟨u, rfl, hrest⟩ := h.exists_cons hs.quote
        rw [show after? [s] (s :: t) = some t from after?_append [s] t,
          show after? [s] (s :: u) = some u from after?_append [s] u]
        exact .some (.whole hrest)
    | @upTo p p' q x y h hp hq =>
        cases p with
        | nil =>
            have hquote := hs.quote
            rw [← Option.some.inj hhead, hq] at hquote
            cases hquote
        | cons r p =>
            obtain rfl : r = s := Option.some.inj hhead
            obtain ⟨p', rfl, hrest⟩ := h.exists_cons hs.quote
            have hdepth : bracketDepth [r] = 0 := by
              rw [bracketDepth_cons, hs.bracketStep_eq]
              rfl
            rw [show after? [r] (r :: p ++ q :: x) = some (p ++ q :: x) from after?_append [r] _,
              show after? [r] (r :: p' ++ q :: y) = some (p' ++ q :: y) from after?_append [r] _]
            exact .some (.upTo x y hrest (HeadFrom.drop (v := [r]) hp hdepth) hq)
  · rw [after?_eq_none_of_head hhead, after?_eq_none_of_head fun hu => hhead (h.head?_eq.trans hu)]
    exact .none

end Alike

theorem rel_getD {α β : Type} {R : α → β → Prop} {o : Option α} {o' : Option β}
    (h : Option.Rel R o o') {a : α} {b : β} (hab : R a b) : R (o.getD a) (o'.getD b) := by
  cases h with
  | some h => exact h
  | none => exact hab

theorem rel_map {α β γ δ : Type} {R : α → β → Prop} {S : γ → δ → Prop} {f : α → γ} {g : β → δ}
    {o : Option α} {o' : Option β} (h : Option.Rel R o o') (hfg : ∀ {a b}, R a b → S (f a) (g b)) :
    Option.Rel S (o.map f) (o'.map g) := by
  cases h with
  | some h => exact .some (hfg h)
  | none => exact .none

section Parts

variable {t u : Text}

theorem alike_afterTypeParameters (h : Alike t u) :
    Alike (afterTypeParameters t) (afterTypeParameters u) :=
  rel_getD (rel_map (h.enclosed?_rel (o := .char '[') rfl) And.right) h

theorem alike_parameterList (h : Alike t u) :
    Requoted (parameterList t).1 (parameterList u).1 ∧
      Alike (parameterList t).2 (parameterList u).2 :=
  rel_getD (R := fun (found found' : Text × Text) =>
    Requoted found.1 found'.1 ∧ Alike found.2 found'.2) (h.enclosed?_rel rfl) ⟨.nil, h⟩

theorem alike_afterBlock (h : Alike t u) : Alike (afterBlock t) (afterBlock u) := by
  have hmark : Alike (((after? "?" t).map Text.trim).getD t)
      (((after? "?" u).map Text.trim).getD u) :=
    rel_getD (rel_map (h.after?_rel (s := .char '?') (isPlain_of_notMem (by decide))) Alike.trim) h
  rw [afterBlock, afterBlock]
  generalize ((after? "?" t).map Text.trim).getD t = t at hmark
  generalize ((after? "?" u).map Text.trim).getD u = u at hmark
  have hhead : t.head? = some (.char '\x7b') ↔ u.head? = some (.char '\x7b') := by
    rw [hmark.head?_eq]
  have hstart : t.startsWith "\x7b" = u.startsWith "\x7b" :=
    Bool.eq_iff_iff.2 ((startsWith_singleton.trans hhead).trans startsWith_singleton.symm)
  rw [hstart]
  split
  · exact rel_getD (rel_map (hmark.enclosed?_rel (o := .char '\x7b') rfl) And.right) (.whole .nil)
  · exact hmark

/-- Neither symbol of an arrow is a quote. -/
theorem after?_arrow_eq_none {p : Text} {q : Sym} (hq : isQuote q)
    (hp : p.startsWith "->" = false) (x : Text) : after? "->" (p ++ q :: x) = none := by
  refine Option.eq_none_iff_forall_ne_some.2 fun rest hrest => ?_
  have heq : p ++ q :: x = .char '-' :: .char '>' :: rest := after?_eq_some_iff.1 hrest
  match p, heq with
  | [], heq =>
      rw [(List.cons.inj heq).1] at hq
      cases hq
  | [_], heq =>
      rw [(List.cons.inj (List.cons.inj heq).2).1] at hq
      cases hq
  | a :: b :: p, heq =>
      obtain ⟨rfl, htail⟩ := List.cons.inj heq
      obtain ⟨rfl, -⟩ := List.cons.inj htail
      cases hp

theorem requoted_resultType (h : Alike t u) : Requoted (resultType t) (resultType u) := by
  cases h with
  | whole h => exact rel_getD (rel_map (h.after?_rel _ (by decide)) Requoted.trim) .nil
  | @upTo p p' q x y h hp hq =>
      have hstart : p.startsWith "->" = false := by
        refine Bool.eq_false_iff.2 fun hstart => ?_
        obtain ⟨rest, rfl⟩ := startsWith_iff.1 hstart
        exact hp.arrows [] rest rfl rfl
      have hstart' : p'.startsWith "->" = false := by
        rw [← h.startsWith_eq _ (by decide), hstart]
      rw [resultType, resultType, after?_arrow_eq_none hq hstart, after?_arrow_eq_none hq hstart']
      exact .nil

end Parts

/-! ## Parameters -/

/-- The same words around names, and types that are requoted. -/
structure PositionalAlike (p p' : Positional) : Prop where
  type : Requoted p.type p'.type
  name : p.name = p'.name

theorem isUnquoted_of_isParameterName {n : Text} (h : isParameterName n) : IsUnquoted n :=
  fun s hs => Bool.eq_false_iff.2 fun hquote => by
    have hword := isWord_of_isParameterName h s hs
    rw [isWord_of_mem_delimiters (mem_delimiters_of_quote hquote)] at hword
    cases hword

/-- The last word of a text, and what stands in front of it. -/
theorem lastWord_append {x n : Text} (hn : ∀ s ∈ n, isInWord s)
    (hx : ∀ s, x.getLast? = some s → isInWord s = false) :
    (x ++ n).rtakeWhile isInWord = n ∧ (x ++ n).rdropWhile isInWord = x := by
  have hreverse : ∀ s ∈ n.reverse, isInWord s := fun s hs => hn s (List.mem_reverse.1 hs)
  have hstop : x.reverse.takeWhile isInWord = [] ∧ x.reverse.dropWhile isInWord = x.reverse := by
    cases hrev : x.reverse with
    | nil => exact ⟨rfl, rfl⟩
    | cons s rest =>
        have hs := hx s (by rw [← List.head?_reverse, hrev]; rfl)
        exact ⟨List.takeWhile_cons_of_neg (by simp [hs]), List.dropWhile_cons_of_neg (by simp [hs])⟩
  rw [List.rtakeWhile, List.rdropWhile, List.reverse_append, List.takeWhile_append_of_pos hreverse,
    List.dropWhile_append_of_pos hreverse, hstop.1, hstop.2]
  simp

/-- A last word without quotes is the last word of both texts. -/
theorem Requoted.lastWord {t u : Text} (h : Requoted t u)
    (hword : IsUnquoted (t.rtakeWhile isInWord)) :
    u.rtakeWhile isInWord = t.rtakeWhile isInWord ∧
      Requoted (t.rdropWhile isInWord) (u.rdropWhile isInWord) := by
  have hsplit : t.rdropWhile isInWord ++ t.rtakeWhile isInWord = t :=
    List.rdropWhile_append_rtakeWhile
  have hlast (s : Sym) (hs : (t.rdropWhile isInWord).getLast? = some s) : isInWord s = false := by
    have hne : t.rdropWhile isInWord ≠ [] := by
      rintro hnil
      rw [hnil] at hs
      cases hs
    rw [List.getLast?_eq_some_getLast hne, Option.some.injEq] at hs
    rw [← hs]
    exact Bool.eq_false_iff.2 (List.rdropWhile_last_not isInWord t hne)
  have hall : ∀ s ∈ t.rtakeWhile isInWord, isInWord s := fun s hs =>
    List.mem_rtakeWhile_imp hs
  generalize t.rdropWhile isInWord = x at *
  generalize t.rtakeWhile isInWord = n at *
  subst hsplit
  obtain ⟨x', rfl, hx⟩ := h.exists_append hword
  obtain ⟨htake, hdrop⟩ := lastWord_append hall fun s hs => hlast s (hx.getLast?_eq.trans hs)
  rw [htake, hdrop]
  exact ⟨rfl, hx⟩

theorem Requoted.isUnfinished_eq {t u : Text} (h : Requoted t u) :
    isUnfinished t = isUnfinished u := by
  have hunquoted : ∀ ending ∈ danglingEndings, IsUnquoted ending := by decide
  rw [isUnfinished, isUnfinished, Bool.eq_iff_iff, List.any_eq_true, List.any_eq_true]
  exact exists_congr fun ending => and_congr_right fun hending => by
    rw [h.endsWith_eq ending (hunquoted ending hending)]

theorem positionalAlike_ofText {t u : Text} (h : Requoted t u) :
    PositionalAlike (Positional.ofText t) (Positional.ofText u) := by
  have htrim (t : Text) : Positional.ofText t = Positional.ofText t.trim := by
    simp [Positional.ofText]
  rw [htrim t, htrim u, Positional.ofText_eq (trim_trim t), Positional.ofText_eq (trim_trim u)]
  replace h := h.trim
  generalize t.trim = t at h
  generalize u.trim = u at h
  by_cases hname : isParameterName (t.rtakeWhile isInWord)
  · obtain ⟨hword, htype⟩ := h.lastWord (isUnquoted_of_isParameterName hname)
    have hempty : (trimRight (t.rdropWhile isInWord)).isEmpty =
        (trimRight (u.rdropWhile isInWord)).isEmpty := by
      rw [Bool.eq_iff_iff, List.isEmpty_iff, List.isEmpty_iff, htype.trimRight.eq_nil_iff]
    dsimp only
    rw [hword, hempty, htype.trimRight.isUnfinished_eq]
    split
    · exact ⟨htype.trimRight, rfl⟩
    · exact ⟨h, rfl⟩
  · have hname' : ¬ isParameterName (u.rtakeWhile isInWord) := fun hu => by
      rw [(h.symm.lastWord (isUnquoted_of_isParameterName hu)).1] at hname
      exact hname hu
    rw [Bool.not_eq_true] at hname hname'
    simp only [hname, hname', Bool.and_false, Bool.false_and, if_neg Bool.false_ne_true]
    exact ⟨h, rfl⟩

theorem keyword?_rel {t u : Text} (h : Requoted t u) :
    Option.Rel (fun found found' => found.1 = found'.1 ∧ Requoted found.2 found'.2)
      (keyword? t) (keyword? u) := by
  have hmark : Requoted ((after? "?" t).getD t) ((after? "?" u).getD u) :=
    rel_getD (h.after?_rel _ (by decide)) h
  rw [keyword?, keyword?]
  generalize (after? "?" t).getD t = t at hmark
  generalize (after? "?" u).getD u = u at hmark
  obtain ⟨hname, hrest⟩ := hmark.span fun s hs =>
    isWord_of_mem_delimiters (mem_delimiters_of_quote hs)
  dsimp only
  rw [hname]
  generalize t.dropWhile Sym.isWord = rest at hrest
  generalize u.dropWhile Sym.isWord = rest' at hrest
  cases u.takeWhile Sym.isWord with
  | nil => exact .none
  | cons s name =>
      cases hrest with
      | nil => exact .none
      | plain _ hrest =>
          dsimp only
          simp only [hrest.head?_eq, ne_eq, hrest.trimLeft.eq_nil_iff,
            hrest.trimLeft.lineFeed_mem_iff]
          split
          · exact .some ⟨rfl, hrest.trimLeft⟩
          · exact .none
      | @literal q _ _ _ _ hc _ _ =>
          have hcolon : q ≠ .char ':' := by
            rintro rfl
            cases hc.quote
          simp only [hcolon, false_and, and_false, if_false]
          exact .none

/-! ## Signatures -/

/-- One name, with types that agree. -/
def EntryAgree (entry entry' : Text × Text) : Prop :=
  entry.1 = entry'.1 ∧ Agree entry.2 entry'.2

/-- The same parameters, with types that agree. -/
structure SignatureAgree (sig sig' : Signature) : Prop where
  returnType : Agree sig.returnType sig'.returnType
  paramTypes : List.Forall₂ EntryAgree sig.paramTypes sig'.paramTypes
  restElement : Option.Rel Agree sig.restElement sig'.restElement
  restValue : Option.Rel Agree sig.restValue sig'.restValue

/-- No type in the signature shows a quote. -/
structure ShowsNoQuote (sig : Signature) : Prop where
  returnType : IsUnquoted sig.returnType
  paramTypes : ∀ entry ∈ sig.paramTypes, IsUnquoted entry.2
  restElement : ∀ t ∈ sig.restElement, IsUnquoted t
  restValue : ∀ t ∈ sig.restValue, IsUnquoted t

theorem eq_of_forall₂_entryAgree {types types' : List (Text × Text)}
    (h : List.Forall₂ EntryAgree types types') (hquote : ∀ entry ∈ types, IsUnquoted entry.2) :
    types = types' := by
  induction h with
  | nil => rfl
  | @cons entry entry' _ _ hentry _ ih =>
      obtain ⟨hfirst, hlater⟩ := List.forall_mem_cons.1 hquote
      rw [ih hlater, Prod.ext hentry.1 (hentry.2 (.inl hfirst))]

theorem eq_of_rel_agree {o o' : Option Text} (h : Option.Rel Agree o o')
    (hquote : ∀ t ∈ o, IsUnquoted t) : o = o' := by
  cases h with
  | some h => rw [h (.inl (hquote _ rfl))]
  | none => rfl

theorem SignatureAgree.refl (sig : Signature) : SignatureAgree sig sig where
  returnType := .refl _
  paramTypes := List.forall₂_same.2 fun _ _ => ⟨rfl, .refl _⟩
  restElement := by
    cases sig.restElement with
    | some t => exact .some (.refl t)
    | none => exact .none
  restValue := by
    cases sig.restValue with
    | some t => exact .some (.refl t)
    | none => exact .none

theorem SignatureAgree.eq {sig sig' : Signature} (h : SignatureAgree sig sig')
    (hquote : ShowsNoQuote sig) : sig = sig' := by
  obtain ⟨returnType, paramTypes, restElement, restValue⟩ := sig
  obtain ⟨returnType', paramTypes', restElement', restValue'⟩ := sig'
  obtain rfl : returnType = returnType' := h.returnType (.inl hquote.returnType)
  obtain rfl : paramTypes = paramTypes' := eq_of_forall₂_entryAgree h.paramTypes hquote.paramTypes
  obtain rfl : restElement = restElement' := eq_of_rel_agree h.restElement hquote.restElement
  obtain rfl : restValue = restValue' := eq_of_rel_agree h.restValue hquote.restValue
  rfl

theorem forall₂_setType {name type type' : Text} (h : Agree type type')
    {types types' : List (Text × Text)} (htypes : List.Forall₂ EntryAgree types types') :
    List.Forall₂ EntryAgree (setType name type types) (setType name type' types') := by
  induction htypes with
  | nil => exact .cons ⟨rfl, h⟩ .nil
  | @cons entry entry' rest rest' hentry hrest ih =>
      obtain ⟨n, t⟩ := entry
      obtain ⟨n', t'⟩ := entry'
      obtain ⟨rfl, ht⟩ : n = n' ∧ Agree t t' := hentry
      rw [setType, setType]
      split
      · exact .cons ⟨rfl, h⟩ hrest
      · exact .cons ⟨rfl, ht⟩ ih

/-- Requoted parameters add types that agree. -/
theorem signatureAgree_addParameter (collapse : Bool) {sig sig' : Signature}
    (hsig : SignatureAgree sig sig') {t u : Text} (h : Requoted t u) :
    SignatureAgree (addParameter (docType collapse) sig t)
      (addParameter (docType collapse) sig' u) := by
  have hempty : t.isEmpty = u.isEmpty := by
    rw [Bool.eq_iff_iff, List.isEmpty_iff, List.isEmpty_iff, h.eq_nil_iff]
  have hvalue := h.after?_rel "**" (by decide)
  have helement := h.after?_rel "*" (by decide)
  have hkeyword := keyword?_rel h
  have hpositional := positionalAlike_ofText
    (rel_getD (h.after?_rel "?" (by decide)) h)
  rw [addParameter, addParameter, hempty]
  -- From here on only the relations between what was read count, not the texts.
  generalize after? "**" t = value at hvalue
  generalize after? "**" u = value' at hvalue
  generalize after? "*" t = element at helement
  generalize after? "*" u = element' at helement
  generalize keyword? t = keyword at hkeyword
  generalize keyword? u = keyword' at hkeyword
  generalize Positional.ofText ((after? "?" t).getD t) = positional at hpositional
  generalize Positional.ofText ((after? "?" u).getD u) = positional' at hpositional
  split
  · exact hsig
  cases hvalue with
  | some hrest =>
      exact { hsig with
        restValue := .some ((positionalAlike_ofText hrest).type.agree_docType collapse) }
  | none =>
      cases helement with
      | some hrest =>
          exact { hsig with
            restElement := .some ((positionalAlike_ofText hrest).type.agree_docType collapse) }
      | none =>
          cases hkeyword with
          | some hnamed =>
              obtain ⟨hname, htype⟩ := hnamed
              dsimp only
              rw [hname]
              exact { hsig with
                paramTypes := forall₂_setType (htype.agree_docType collapse) hsig.paramTypes }
          | none =>
              dsimp only
              rw [hpositional.name]
              split
              · exact { hsig with
                  paramTypes := forall₂_setType (hpositional.type.agree_docType collapse)
                    hsig.paramTypes }
              · exact hsig

/-- Requoted method types have signatures that agree, if no bracket is closed in them that was not
opened. -/
theorem signatureAgree_ofMethodType (collapse : Bool) {t u : Text} (h : Requoted t u)
    (ht : IsNested t) :
    SignatureAgree (ofMethodType collapse t) (ofMethodType collapse u) := by
  have hfirst : Alike (firstOverload t) (firstOverload u) :=
    .trim (h.overloadFrom_alike fun before hbefore => by
      have hdepth := ht before hbefore
      omega)
  obtain ⟨hparams, hrest⟩ := alike_parameterList (alike_afterTypeParameters hfirst)
  have hresult := (requoted_resultType (alike_afterBlock hrest)).agree_docType collapse
  have hparts := hparams.forall₂_parts (.char ',')
  rw [ofMethodType, ofMethodType]
  generalize parameterList (afterTypeParameters (firstOverload t)) = found at *
  generalize parameterList (afterTypeParameters (firstOverload u)) = found' at *
  dsimp only
  have hstart : SignatureAgree
      { returnType := docType collapse (resultType (afterBlock found.2)) }
      { returnType := docType collapse (resultType (afterBlock found'.2)) } :=
    ⟨hresult, .nil, .none, .none⟩
  exact List.rel_foldl (P := SignatureAgree) (R := Requoted)
    (fun _ _ hsig _ _ hpart => signatureAgree_addParameter collapse hsig hpart) hstart hparts

end RubyDoc.Signature
