import RubyDoc.Proofs.Signature.Literal.Requoted
import RubyDoc.Proofs.Signature.Translation

/-!
# Types that differ between quotes

Requoted types have the same shape, with requoted types inside.  So they are documented alike,
unless the documentation shows a quote: a text that is no type is shown as it stands, with its
literals (`Requoted.agree_docType`).
-/

namespace RubyDoc.Signature

open Text

/-- The same text, or a quote in both. -/
def Agree (t u : Text) : Prop :=
  IsUnquoted t ∨ IsUnquoted u → t = u

@[simp] theorem Agree.refl (t : Text) : Agree t t := fun _ => rfl

theorem Requoted.agree {t u : Text} (h : Requoted t u) : Agree t u := fun hquote =>
  hquote.elim (fun ht => (h.eq_of_isUnquoted ht).symm) h.symm.eq_of_isUnquoted

/-- The same form, with requoted types inside. -/
inductive ShapeAlike : Shape → Shape → Prop
  | fixed {word word' : Text} (h : Agree word word') : ShapeAlike (.fixed word) (.fixed word')
  | union {ts us : List Text} (h : List.Forall₂ Requoted ts us) :
      ShapeAlike (.union ts) (.union us)
  | optional {t u : Text} (h : Requoted t u) : ShapeAlike (.optional t) (.optional u)
  | group {t u : Text} (h : Requoted t u) : ShapeAlike (.group t) (.group u)
  | generic (name : Text) {ts us : List Text} (h : List.Forall₂ Requoted ts us) :
      ShapeAlike (.generic name ts) (.generic name us)

theorem isPathSym_of_quote {s : Sym} (h : isQuote s) : isPathSym s = false := by
  have hdelimiter := mem_delimiters_of_quote h
  have hcolon : s ≠ .char ':' := by
    rintro rfl
    cases h
  simp [isPathSym, isWord_of_mem_delimiters hdelimiter, hcolon]

theorem isUnquoted_of_isInteger {t : Text} (h : isInteger t) : IsUnquoted t := by
  have hdigit {s : Sym} (hs : s.isDigit) : isQuote s = false := by
    refine Bool.eq_false_iff.2 fun hquote => ?_
    have hnone := (by decide : ∀ c ∈ delimiters, c.isDigit = false) s
      (mem_delimiters_of_quote hquote)
    rw [hnone] at hs
    cases hs
  rw [isInteger, Bool.and_eq_true, List.all_eq_true] at h
  split at h
  · rename_i hhead
    obtain ⟨digits, rfl⟩ := List.head?_eq_some_iff.1 hhead
    exact List.forall_mem_cons.2 ⟨rfl, fun s hs => hdigit (h.2 s hs)⟩
  · exact fun s hs => hdigit (h.2 s hs)

theorem isUnquoted_of_lookup_keywordTypes {t word : Text}
    (h : keywordTypes.lookup t = some word) : IsUnquoted t ∧ IsUnquoted word := by
  obtain ⟨before, behind, hkeywords, -⟩ := List.lookup_eq_some_iff.1 h
  have hmem : (t, word) ∈ keywordTypes := by simp [hkeywords]
  exact (by decide : ∀ entry ∈ keywordTypes, IsUnquoted entry.1 ∧ IsUnquoted entry.2) _ hmem

namespace Requoted

variable {t u : Text}

theorem generic?_rel (h : Requoted t u) : Option.Rel ShapeAlike (generic? t) (generic? u) := by
  obtain ⟨hname, hrest⟩ := h.span fun _ => isPathSym_of_quote
  rw [generic?, generic?, hname]
  generalize t.dropWhile isPathSym = rest at hrest
  generalize u.dropWhile isPathSym = rest' at hrest
  cases hrest with
  | nil => exact .none
  | plain hs hrest =>
      dsimp only
      rw [hrest.getLast?_eq]
      split
      · rename_i hform
        have hclosed := hrest.dropLast (hrest.getLast?_eq.trans hform.2.2) rfl
        exact .some (.generic _ (hclosed.forall₂_piecesFrom (.char ',') 0))
      · exact .none
  | @literal q _ _ _ _ hc _ _ =>
      have hq : q ≠ .char '[' := by
        rintro rfl
        cases hc.quote
      simp only [hq, false_and, if_false]
      exact .none

theorem isInteger_eq (h : Requoted t u) : isInteger t = isInteger u := by
  refine Bool.eq_iff_iff.2 ⟨fun ht => ?_, fun hu => ?_⟩
  · rwa [h.eq_of_isUnquoted (isUnquoted_of_isInteger ht)]
  · rwa [h.symm.eq_of_isUnquoted (isUnquoted_of_isInteger hu)]

theorem lookup_keywordTypes_eq (h : Requoted t u) :
    keywordTypes.lookup t = keywordTypes.lookup u := by
  cases ht : keywordTypes.lookup t with
  | some word => rw [h.eq_of_isUnquoted (isUnquoted_of_lookup_keywordTypes ht).1, ht]
  | none =>
      cases hu : keywordTypes.lookup u with
      | none => rfl
      | some word =>
          rw [← h.symm.eq_of_isUnquoted (isUnquoted_of_lookup_keywordTypes hu).1, ht] at hu
          cases hu

theorem atomShape_alike (h : Requoted t u) : ShapeAlike (atomShape t) (atomShape u) := by
  have hcolons : Requoted (withoutColons t) (withoutColons u) :=
    (h.span fun s hs => by
      rw [decide_eq_false_iff_not]
      rintro rfl
      cases hs).2
  -- Every question about the form has the same answer for both texts.
  rw [atomShape, atomShape, h.head?_eq, h.isInteger_eq, h.lookup_keywordTypes_eq,
    h.startsWith_eq "[" (by decide), h.startsWith_eq "\x7b" (by decide),
    h.startsWith_eq ":" (by decide), h.startsWith_eq "::" (by decide),
    h.startsWith_eq "singleton(" (by decide), h.endsWith_eq ")" (by decide)]
  split
  · exact .fixed (.refl _)
  split
  · exact .fixed (.refl _)
  split
  · exact .fixed (.refl _)
  split
  · exact .fixed (.refl _)
  split
  · exact .fixed (.refl _)
  split
  · exact .fixed (.refl _)
  split
  · exact .fixed (.refl _)
  · have hgeneric := h.generic?_rel
    generalize generic? t = form at hgeneric
    generalize generic? u = form' at hgeneric
    cases hgeneric with
    | some hform => exact hform
    | none =>
        refine .fixed ?_
        split
        · exact hcolons.agree
        · exact h.agree

/-- What one pair of parentheses encloses as a whole. -/
theorem group (h : Requoted t u)
    (hgroup : t.startsWith "(" ∧ closing? t = some (t.length - 1)) :
    (u.startsWith "(" ∧ closing? u = some (u.length - 1)) ∧
      Requoted t.tail.dropLast u.tail.dropLast := by
  obtain ⟨hstart, hclosing⟩ := hgroup
  have hstart' : u.startsWith "(" := by rwa [← h.startsWith_eq _ (by decide)]
  obtain ⟨t, rfl⟩ := List.head?_eq_some_iff.1 (startsWith_singleton.1 hstart)
  obtain ⟨u, rfl, hrest⟩ := h.exists_cons (s := .char '(') rfl
  replace hclosing : closing? (.char '(' :: t) = some t.length := hclosing
  rcases hrest.closing?_cases (s := .char '(') rfl with ⟨hnone, -⟩ |
      ⟨before, behind, before', behind', c, rfl, rfl, hbefore, hbehind, hsome, hsome'⟩
  · have heq := hnone.symm.trans hclosing
    cases heq
  · -- Nothing stands behind the closing parenthesis of one text, so nothing in the other.
    rw [hsome, Option.some.injEq, List.length_append, List.length_cons] at hclosing
    obtain rfl : behind = [] := List.length_eq_zero_iff.1 (by omega)
    obtain rfl := hbehind.eq_nil_iff.1 rfl
    refine ⟨⟨hstart', ?_⟩, ?_⟩
    · simp [hsome']
    · simpa using hbefore

theorem shape_alike (h : Requoted t u) : ShapeAlike (shape t) (shape u) := by
  have hempty : t.isEmpty = u.isEmpty := by
    rw [Bool.eq_iff_iff, List.isEmpty_iff, List.isEmpty_iff, h.eq_nil_iff]
  have hbars := h.forall₂_piecesFrom (.char '|') 0
  have hands := h.forall₂_piecesFrom (.char '&') 0
  have hlong : decide (1 < t.length) = decide (1 < u.length) :=
    decide_eq_decide.2 h.one_lt_length_iff
  have hgroup : (t.startsWith "(" ∧ closing? t = some (t.length - 1)) ↔
      (u.startsWith "(" ∧ closing? u = some (u.length - 1)) :=
    ⟨fun ht => (h.group ht).1, fun hu => (h.symm.group hu).1⟩
  have hbarsLength : (pieces (.char '|') t).length = (pieces (.char '|') u).length :=
    hbars.length_eq
  have handsLength : (pieces (.char '&') t).length = (pieces (.char '&') u).length :=
    hands.length_eq
  rw [shape, shape]
  simp only [hempty, h.startsWith_eq "^" (by decide),
    h.endsWith_eq "?" (by decide), hlong, hgroup, hbarsLength, handsLength]
  split
  · exact .fixed (.refl _)
  split
  · exact .fixed (.refl _)
  split
  · exact .union hbars
  split
  · exact .fixed (.refl _)
  split
  · rename_i hends
    rw [Bool.and_eq_true, ← h.endsWith_eq "?" (by decide)] at hends
    obtain ⟨before, rfl⟩ := List.isSuffixOf_iff_suffix.1 hends.1
    exact .optional (h.dropLast (s := .char '?') List.getLast?_concat rfl)
  split
  · rename_i hparentheses
    exact .group (h.group (hgroup.2 hparentheses)).2
  · exact h.atomShape_alike

end Requoted

/-! ## Documented types -/

theorem IsUnquoted.append_iff {t u : Text} : IsUnquoted (t ++ u) ↔ IsUnquoted t ∧ IsUnquoted u :=
  List.forall_mem_append

/-- Two texts with a common frame around texts that agree. -/
theorem Agree.frame {t u : Text} (h : Agree t u) (before behind : Text) :
    Agree (before ++ t ++ behind) (before ++ u ++ behind) := by
  intro hquote
  rw [IsUnquoted.append_iff, IsUnquoted.append_iff, IsUnquoted.append_iff,
    IsUnquoted.append_iff] at hquote
  rw [h (hquote.imp (fun ht => ht.1.2) fun hu => hu.1.2)]

theorem isUnquoted_of_mem_join {sep t : Text} {ts : List Text} (h : IsUnquoted (Text.join sep ts))
    (ht : t ∈ ts) : IsUnquoted t := by
  induction ts with
  | nil => cases ht
  | cons first ts ih =>
      cases ts with
      | nil => rwa [List.mem_singleton.1 ht]
      | cons next ts =>
          rw [Text.join, IsUnquoted.append_iff, IsUnquoted.append_iff] at h
          rcases List.mem_cons.1 ht with rfl | ht
          · exact h.1.1
          · exact ih h.2 ht

theorem eq_of_forall₂_agree {ts us : List Text} (h : List.Forall₂ Agree ts us)
    (hquote : (∀ t ∈ ts, IsUnquoted t) ∨ ∀ u ∈ us, IsUnquoted u) : ts = us := by
  induction h with
  | nil => rfl
  | cons hfirst _ ih =>
      simp only [List.forall_mem_cons] at hquote
      rw [hfirst (hquote.imp And.left And.left), ih (hquote.imp And.right And.right)]

/-- Lists of texts that agree, without repetitions or with them. -/
theorem agree_join {sep : Text} {f : List Text → List Text} (hf : ∀ ts, ∀ t ∈ ts, t ∈ f ts)
    {ts us : List Text} (h : List.Forall₂ Agree ts us) :
    Agree (Text.join sep (f ts)) (Text.join sep (f us)) := by
  intro hquote
  have hall {ts : List Text} (hts : IsUnquoted (Text.join sep (f ts))) : ∀ t ∈ ts, IsUnquoted t :=
    fun t ht => isUnquoted_of_mem_join hts (hf ts t ht)
  rw [eq_of_forall₂_agree h (hquote.imp hall hall)]

/-- Requoted types are documented alike, if quotes are not shown. -/
theorem Requoted.agree_docType (collapse : Bool) {t u : Text} (h : Requoted t u) :
    Agree (docType collapse t) (docType collapse u) := by
  -- On the length, as the types inside a type are shorter.
  induction hn : t.length using Nat.strong_induction_on generalizing t u with
  | _ n ih =>
      subst hn
      rw [docType_eq, docType_eq]
      have hshape := h.trim.shape_alike
      have hshorter (p : Text) (hp : p ∈ (shape t.trim).inner) : p.length < t.length :=
        Nat.lt_of_lt_of_le (length_lt_of_mem_shape hp) (length_trim_le t)
      generalize shape t.trim = form at hshape hshorter
      generalize shape u.trim = form' at hshape
      have hmembers {ts us : List Text} (hts : List.Forall₂ Requoted ts us)
          (hlength : ∀ p ∈ ts, p.length < t.length) :
          List.Forall₂ Agree (ts.map (docType collapse)) (us.map (docType collapse)) := by
        induction hts with
        | nil => exact .nil
        | cons hfirst _ ihts =>
            obtain ⟨hlt, hlength⟩ := List.forall_mem_cons.1 hlength
            exact .cons (ih _ hlt hfirst rfl) (ihts hlength)
      cases hshape with
      | fixed hword => exact hword
      | union hts =>
          exact agree_join (fun _ _ ht => List.mem_eraseDups.2 ht) (hmembers hts hshorter)
      | optional hinner =>
          exact (ih _ (hshorter _ (List.mem_singleton_self _)) hinner rfl).frame [] "?"
      | group hinner => exact ih _ (hshorter _ (List.mem_singleton_self _)) hinner rfl
      | generic name hts =>
          dsimp only
          split
          · exact .refl _
          · exact (agree_join (f := id) (fun _ _ ht => ht) (hmembers hts hshorter)).frame _ _

end RubyDoc.Signature
