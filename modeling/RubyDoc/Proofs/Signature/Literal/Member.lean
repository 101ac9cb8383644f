import RubyDoc.Proofs.Signature.Literal.Line

/-!
# Members that differ between quotes

A line that begins with the keyword of a member is read alike if it declares the member in front of
its first literal (`DeclaresFirst`), as is the case where literals occur as types only.  Names,
colons and receivers then stand in front of that literal, and the types behind them are requoted
(`declarationAlike_ofLine`).
-/

namespace RubyDoc.Signature

open Outline Text

/-! ## Members -/

/-- The keywords of members. -/
def memberKeywords : List Text :=
  "def" :: Declaration.attributeKeywords.map Prod.fst

/-- Does a line begin as one that declares a member? -/
def beginsMember (line : Text) : Bool :=
  memberKeywords.any fun keyword => (Declaration.afterKeyword? keyword line).isSome

/-- A declaration of a method whose name has no dot, or of an attribute. -/
inductive IsMember : Declaration → Prop
  | method (scopes : List Scope) {name : Text} (type : Text) (hname : .char '.' ∉ name) :
      IsMember (.method scopes name type)
  | attribute (access : Access) (scope : Scope) (name type : Text) :
      IsMember (.attribute access scope name type)

/-- If a line begins as one that declares a member, it does so up to its first quote. -/
def DeclaresFirst (line : Text) : Prop :=
  ∀ before q behind, line = before ++ q :: behind → IsUnquoted before → isQuote q →
    beginsMember line → IsMember (Declaration.ofLine (before ++ [q]))

theorem declaresFirst_of_isUnquoted {line : Text} (h : IsUnquoted line) : DeclaresFirst line := by
  rintro before q behind rfl - hq
  have hnone := h q (by simp)
  rw [hq] at hnone
  cases hnone

theorem declaresFirst_of_isMember {before behind : Text} {q : Sym} (hbefore : IsUnquoted before)
    (hq : isQuote q) (h : IsMember (Declaration.ofLine (before ++ [q]))) :
    DeclaresFirst (before ++ q :: behind) := by
  have hfirst {before : Text} (behind : Text) {q : Sym} (hbefore : IsUnquoted before)
      (hq : isQuote q) :
      (before ++ q :: behind).takeWhile (fun s => !isQuote s) = before ∧
        (before ++ q :: behind).dropWhile (fun s => !isQuote s) = q :: behind := by
    have hall : ∀ s ∈ before, !isQuote s := fun s hs => by simp [hbefore s hs]
    exact ⟨by simp [List.takeWhile_append_of_pos hall, hq],
      by simp [List.dropWhile_append_of_pos hall, hq]⟩
  intro before' q' behind' heq hbefore' hq' _
  -- A text has one first quote only.
  obtain ⟨htake, hdrop⟩ := hfirst behind hbefore hq
  obtain ⟨htake', hdrop'⟩ := hfirst behind' hbefore' hq'
  rw [← heq] at htake' hdrop'
  obtain rfl := htake.symm.trans htake'
  obtain rfl := (List.cons.inj (hdrop.symm.trans hdrop')).1
  exact h

/-- The same declaration, with types that are requoted. -/
inductive DeclarationAlike : Declaration → Declaration → Prop
  | opening (block : Block) (closed : Bool) :
      DeclarationAlike (.opening block closed) (.opening block closed)
  | closing : DeclarationAlike .closing .closing
  | method (scopes : List Scope) (name : Text) {type type' : Text} (h : Requoted type type') :
      DeclarationAlike (.method scopes name type) (.method scopes name type')
  | attribute (access : Access) (scope : Scope) (name : Text) {type type' : Text}
      (h : Requoted type type') :
      DeclarationAlike (.attribute access scope name type) (.attribute access scope name type')
  | other : DeclarationAlike .other .other

/-! ### What is left of a line -/

section Suffix

variable {t rest name type : Text}

theorem prefix_of_afterKeyword? {keyword : Text}
    (h : Declaration.afterKeyword? keyword t = some rest) : keyword <+: t := by
  rw [Declaration.afterKeyword?] at h
  split at h
  · rename_i hmore
    exact ⟨_, (after?_eq_some_iff.1 hmore).symm⟩
  · cases h

theorem suffix_of_after? {head : Text} (h : after? head t = some rest) : rest <:+ t :=
  ⟨head, (after?_eq_some_iff.1 h).symm⟩

theorem suffix_trimLeft (t : Text) : trimLeft t <:+ t :=
  List.dropWhile_suffix _

theorem suffix_of_afterKeyword? {keyword : Text}
    (h : Declaration.afterKeyword? keyword t = some rest) : rest <:+ t := by
  rw [Declaration.afterKeyword?] at h
  split at h
  · rename_i s more hmore
    split at h
    · rw [← Option.some.inj h]
      exact (suffix_trimLeft more).trans ((List.suffix_cons s more).trans (suffix_of_after? hmore))
    · cases h
  · cases h

theorem suffix_of_nameAndType? (h : Declaration.nameAndType? t = some (name, type)) :
    type <:+ t := by
  induction t generalizing name with
  | nil => cases h
  | cons s t ih =>
      have htail : t <:+ s :: t := List.suffix_cons s t
      rw [Declaration.nameAndType?] at h
      split at h
      · cases h
      · split at h
        · cases h
        · rename_i c more hmore
          split at h
          · obtain ⟨-, rfl⟩ := Prod.mk.inj (Option.some.inj h)
            have hc : c :: more <:+ t := hmore ▸ suffix_trimLeft t
            exact (suffix_trimLeft more).trans ((List.suffix_cons c more).trans (hc.trans htail))
          · obtain ⟨⟨name', type'⟩, hfound, heq⟩ := Option.map_eq_some_iff.1 h
            obtain ⟨-, rfl⟩ := Prod.mk.inj heq
            exact (ih hfound).trans htail

theorem suffix_attributeName (t : Text) : (Declaration.attributeName t).2 <:+ t := by
  have hdrop : t.dropWhile Sym.isWord <:+ t := List.dropWhile_suffix _
  rw [Declaration.attributeName]
  cases hrest : t.dropWhile Sym.isWord with
  | nil => exact List.nil_suffix
  | cons s rest =>
      rw [hrest] at hdrop
      dsimp only
      split
      · exact (List.suffix_cons s rest).trans hdrop
      · exact hdrop

theorem suffix_of_afterVariable? (h : Declaration.afterVariable? t = some rest) : rest <:+ t := by
  rw [Declaration.afterVariable?] at h
  split at h
  · rw [Option.some.inj h]
  · rename_i more hmore
    obtain ⟨behind, hbehind, rfl⟩ := Option.map_eq_some_iff.1 h
    exact (suffix_trimLeft behind).trans ((suffix_of_after? hbehind).trans
      ((List.dropWhile_suffix _).trans (suffix_of_after? hmore)))

end Suffix

/-- A method with one receiver, behind the keyword. -/
def methodOf? (receiver : Text) (scopes : List Scope) (t : Text) : Option Declaration :=
  ((after? receiver t).bind Declaration.nameAndType?).map fun found =>
    .method scopes found.1 found.2

theorem method?_eq (t : Text) :
    Declaration.method? t = (Declaration.afterKeyword? "def" t).bind fun rest =>
      (methodOf? "self." [.onClass] rest).or
        ((methodOf? "self?." [.onClass, .onInstance] rest).or
          (methodOf? "" [.onInstance] rest)) := by
  have hread (receiver : Text) (scopes : List Scope) (rest : Text) :
      ((after? receiver rest).bind fun rest => (Declaration.nameAndType? rest).bind fun found =>
        pure (Declaration.method scopes found.1 found.2)) = methodOf? receiver scopes rest := by
    rw [methodOf?]
    cases after? receiver rest with
    | none => rfl
    | some rest =>
        rw [Option.bind_some, Option.bind_some]
        cases Declaration.nameAndType? rest <;> rfl
  rw [Declaration.method?]
  cases Declaration.afterKeyword? "def" t with
  | none => rfl
  | some rest =>
      simp only [Option.bind_eq_bind, Option.bind_some, Declaration.receivers, List.findSome?_cons,
        List.findSome?_nil, hread]
      cases methodOf? "self." [.onClass] rest with
      | some d => rfl
      | none =>
          cases methodOf? "self?." [.onClass, .onInstance] rest with
          | some d => rfl
          | none => cases methodOf? "" [.onInstance] rest <;> rfl

theorem exists_of_methodOf? {receiver t : Text} {scopes : List Scope} {d : Declaration}
    (h : methodOf? receiver scopes t = some d) :
    ∃ rest name type, after? receiver t = some rest ∧
      Declaration.nameAndType? rest = some (name, type) ∧ d = .method scopes name type := by
  obtain ⟨⟨name, type⟩, hfound, rfl⟩ := Option.map_eq_some_iff.1 h
  obtain ⟨rest, hrest, hname⟩ := Option.bind_eq_some_iff.1 hfound
  exact ⟨rest, name, type, hrest, hname, rfl⟩

theorem exists_of_method? {t : Text} {d : Declaration} (h : Declaration.method? t = some d) :
    ∃ scopes name type, d = .method scopes name type ∧ type <:+ t := by
  rw [method?_eq, Option.bind_eq_some_iff] at h
  obtain ⟨rest, hrest, h⟩ := h
  have hone {receiver : Text} {scopes : List Scope} (h : methodOf? receiver scopes rest = some d) :
      ∃ scopes name type, d = .method scopes name type ∧ type <:+ t := by
    obtain ⟨more, name, type, hmore, hname, rfl⟩ := exists_of_methodOf? h
    exact ⟨scopes, name, type, rfl, (suffix_of_nameAndType? hname).trans
      ((suffix_of_after? hmore).trans (suffix_of_afterKeyword? hrest))⟩
  rw [Option.or_eq_some_iff, Option.or_eq_some_iff] at h
  rcases h with h | ⟨-, h | ⟨-, h⟩⟩
  · exact hone h
  · exact hone h
  · exact hone h

/-- An attribute, behind the keyword. -/
def attributeOf? (access : Access) (rest : Text) : Option Declaration := do
  let onClass := after? "self." rest
  let found := Declaration.attributeName (onClass.getD rest)
  let type := trimLeft (← after? ":" (← Declaration.afterVariable? (trimLeft found.2)))
  if found.1.head?.any Sym.isWord && !type.isEmpty then
    return .attribute access (if onClass.isSome then .onClass else .onInstance) found.1 type
  else none

theorem attribute?_eq (t : Text) :
    Declaration.attribute? t = Declaration.attributeKeywords.findSome? fun keyword =>
      (Declaration.afterKeyword? keyword.1 t).bind (attributeOf? keyword.2) :=
  rfl

theorem exists_of_attributeOf? {access : Access} {rest : Text} {d : Declaration}
    (h : attributeOf? access rest = some d) :
    ∃ scope name type, d = .attribute access scope name type ∧ type <:+ rest := by
  have hreceiver : (after? "self." rest).getD rest <:+ rest := by
    cases hafter : after? "self." rest with
    | none => exact List.suffix_rfl
    | some more => exact suffix_of_after? hafter
  obtain ⟨behind, hvariable, h⟩ := Option.bind_eq_some_iff.1 h
  obtain ⟨more, hmore, h⟩ := Option.bind_eq_some_iff.1 h
  dsimp only at h
  generalize (if (after? "self." rest).isSome then Scope.onClass else .onInstance) = scope at h
  split at h
  · exact ⟨scope, _, _, (Option.some.inj h).symm, (suffix_trimLeft more).trans
      ((suffix_of_after? hmore).trans ((suffix_of_afterVariable? hvariable).trans
        ((suffix_trimLeft _).trans ((suffix_attributeName _).trans hreceiver))))⟩
  · cases h

theorem exists_of_attribute? {t : Text} {d : Declaration} (h : Declaration.attribute? t = some d) :
    ∃ access scope name type, d = .attribute access scope name type ∧ type <:+ t := by
  obtain ⟨k, -, hread⟩ := List.exists_of_findSome?_eq_some h
  obtain ⟨rest, hrest, hread⟩ := Option.bind_eq_some_iff.1 hread
  obtain ⟨scope, name, type, rfl, htype⟩ := exists_of_attributeOf? hread
  exact ⟨_, scope, name, type, rfl, htype.trans (suffix_of_afterKeyword? hrest)⟩

/-! ### Up to a quote -/

section UpTo

variable {q : Sym}

theorem after?_append_quote (hq : isQuote q) (head : Text) (hhead : IsUnquoted head) (l x : Text) :
    after? head (l ++ q :: x) = (after? head l).map (· ++ q :: x) := by
  induction head generalizing l with
  | nil => rfl
  | cons s head ih =>
      obtain ⟨hs, hhead⟩ := List.forall_mem_cons.1 hhead
      cases l with
      | nil =>
          refine after?_eq_none_of_head (fun hsq => ?_) head
          rw [List.nil_append, List.head?_cons, Option.some.injEq] at hsq
          rw [← hsq, hq] at hs
          cases hs
      | cons r l =>
          rw [List.cons_append, after?, after?]
          split
          · exact ih hhead l
          · rfl

theorem afterKeyword?_append_quote (hq : isQuote q) (keyword : Text) (hkeyword : IsUnquoted keyword)
    (l x : Text) : Declaration.afterKeyword? keyword (l ++ q :: x) =
      (Declaration.afterKeyword? keyword l).map (· ++ q :: x) := by
  have hblank := isBlank_of_mem_delimiters (mem_delimiters_of_quote hq)
  rw [Declaration.afterKeyword?, Declaration.afterKeyword?, after?_append_quote hq keyword hkeyword]
  cases after? keyword l with
  | none => rfl
  | some rest =>
      cases rest with
      | nil => simp [hblank]
      | cons s rest =>
          simp only [Option.map_some, List.cons_append, trimLeft_append_quote hq]
          split <;> rfl

/-- A name and the colon behind it stand in front of the quote. -/
theorem nameAndType?_append_quote (hq : isQuote q) {l name type : Text}
    (h : Declaration.nameAndType? (l ++ [q]) = some (name, type)) :
    ∃ v, type = v ++ [q] ∧
      ∀ x, Declaration.nameAndType? (l ++ q :: x) = some (name, v ++ q :: x) := by
  have hcolon : q ≠ .char ':' := by
    rintro rfl
    cases hq
  induction l generalizing name with
  | nil => simp [Declaration.nameAndType?, trimLeft] at h
  | cons s l ih =>
      simp only [List.cons_append, Declaration.nameAndType?, trimLeft_append_quote hq] at h ⊢
      split at h
      · cases h
      · rename_i hblank
        simp only [if_neg hblank]
        -- Either the colon stands in front of the quote, or the name goes on.
        cases hrest : trimLeft l with
        | nil =>
            simp only [hrest, List.nil_append, if_neg hcolon, Option.map_eq_some_iff] at h
            obtain ⟨⟨name', type'⟩, hfound, heq⟩ := h
            obtain ⟨rfl, rfl⟩ := Prod.mk.inj heq
            obtain ⟨v, hv, hread⟩ := ih hfound
            refine ⟨v, hv, fun x => ?_⟩
            simp only [List.nil_append, if_neg hcolon, hread x, Option.map_some]
        | cons r rest =>
            simp only [hrest, List.cons_append] at h ⊢
            split at h
            · rename_i hr
              obtain ⟨rfl, rfl⟩ := Prod.mk.inj (Option.some.inj h)
              refine ⟨trimLeft rest, trimLeft_append_quote hq rest [], fun x => ?_⟩
              simp only [if_pos hr, trimLeft_append_quote hq]
            · rename_i hr
              obtain ⟨⟨name', type'⟩, hfound, heq⟩ := Option.map_eq_some_iff.1 h
              obtain ⟨rfl, rfl⟩ := Prod.mk.inj heq
              obtain ⟨v, hv, hread⟩ := ih hfound
              refine ⟨v, hv, fun x => ?_⟩
              simp only [if_neg hr, hread x, Option.map_some]

/-- A dot in front of the colon is part of the name. -/
theorem dot_mem_of_nameAndType? {w y name type : Text}
    (hw : ∀ s ∈ w, s.isBlank = false ∧ s ≠ .char ':')
    (h : Declaration.nameAndType? (w ++ .char '.' :: y) = some (name, type)) :
    .char '.' ∈ name := by
  have hdot : (Sym.char '.').isBlank = false := by decide
  induction w generalizing name with
  | nil =>
      rw [List.nil_append, Declaration.nameAndType?, if_neg (by simp [hdot])] at h
      split at h
      · cases h
      · split at h
        · obtain ⟨rfl, -⟩ := Prod.mk.inj (Option.some.inj h)
          exact List.mem_singleton_self _
        · obtain ⟨found, -, heq⟩ := Option.map_eq_some_iff.1 h
          obtain ⟨rfl, -⟩ := Prod.mk.inj heq
          exact List.mem_cons_self
  | cons s w ih =>
      obtain ⟨hs, hw⟩ := List.forall_mem_cons.1 hw
      have hhead : ∀ c, (w ++ .char '.' :: y).head? = some c →
          c.isBlank = false ∧ c ≠ .char ':' := by
        intro c hc
        cases w with
        | nil =>
            rw [← Option.some.inj hc]
            exact ⟨hdot, by decide⟩
        | cons r w =>
            rw [← Option.some.inj hc]
            exact hw r List.mem_cons_self
      rw [List.cons_append, Declaration.nameAndType?, if_neg (by simp [hs.1]),
        trimLeft_of_head fun c hc => (hhead c hc).1] at h
      split at h
      · cases h
      · rename_i c rest hrest
        rw [if_neg (hhead c (by rw [hrest]; rfl)).2, Option.map_eq_some_iff] at h
        obtain ⟨⟨name', type'⟩, hfound, heq⟩ := h
        obtain ⟨rfl, rfl⟩ := Prod.mk.inj heq
        exact List.mem_cons_of_mem _ (ih hw hfound)

/-- A receiver ends with a dot, which the name behind no receiver would have. -/
theorem after?_receiver_eq_none_of_name {w l name type : Text}
    (hw : ∀ s ∈ w, s.isBlank = false ∧ s ≠ .char ':')
    (h : Declaration.nameAndType? (l ++ [q]) = some (name, type)) (hname : .char '.' ∉ name) :
    after? (w ++ [.char '.']) l = none := by
  refine Option.eq_none_iff_forall_ne_some.2 fun rest hrest => hname ?_
  rw [after?_eq_some_iff.1 hrest] at h
  simp only [List.append_assoc, List.singleton_append] at h
  exact dot_mem_of_nameAndType? hw h

theorem methodOf?_append_quote (hq : isQuote q) {receiver : Text} (hreceiver : IsUnquoted receiver)
    {scopes : List Scope} {l : Text} {d : Declaration}
    (h : methodOf? receiver scopes (l ++ [q]) = some d) :
    ∃ rest name v, after? receiver l = some rest ∧
      Declaration.nameAndType? (rest ++ [q]) = some (name, v ++ [q]) ∧
      d = .method scopes name (v ++ [q]) ∧
      ∀ x, methodOf? receiver scopes (l ++ q :: x) = some (.method scopes name (v ++ q :: x)) := by
  obtain ⟨found, name, type, hfound, hname, rfl⟩ := exists_of_methodOf? h
  rw [after?_append_quote hq receiver hreceiver, Option.map_eq_some_iff] at hfound
  obtain ⟨rest, hrest, rfl⟩ := hfound
  obtain ⟨v, rfl, hread⟩ := nameAndType?_append_quote hq hname
  refine ⟨rest, name, v, hrest, hname, rfl, fun x => ?_⟩
  rw [methodOf?, after?_append_quote hq receiver hreceiver, hrest, Option.map_some,
    Option.bind_some, hread x]
  rfl

theorem method?_append_quote (hq : isQuote q) {l name type : Text} {scopes : List Scope}
    (h : Declaration.method? (l ++ [q]) = some (.method scopes name type))
    (hname : .char '.' ∉ name) :
    ∃ v, type = v ++ [q] ∧ ∀ x, Declaration.method? (l ++ q :: x) =
      some (.method scopes name (v ++ q :: x)) := by
  simp only [method?_eq, afterKeyword?_append_quote hq "def" (by decide)] at h ⊢
  cases hrest : Declaration.afterKeyword? "def" l with
  | none => simp [hrest] at h
  | some rest =>
      have hnone {receiver : Text} (hreceiver : IsUnquoted receiver) (scopes : List Scope)
          (hafter : after? receiver rest = none) (x : Text) :
          methodOf? receiver scopes (rest ++ q :: x) = none := by
        rw [methodOf?, after?_append_quote hq receiver hreceiver, hafter]
        rfl
      simp only [hrest, Option.map_some, Option.bind_some, Option.or_eq_some_iff] at h ⊢
      -- A receiver that was not found up to the quote is not found behind it either.
      rcases h with hself | ⟨-, hboth | ⟨-, habsent⟩⟩
      · obtain ⟨_, _, v, -, -, heq, hread⟩ := methodOf?_append_quote hq (by decide) hself
        cases heq
        exact ⟨v, rfl, fun x => .inl (hread x)⟩
      · obtain ⟨r, _, v, hr, -, heq, hread⟩ := methodOf?_append_quote hq (by decide) hboth
        cases heq
        have hself : after? "self." rest = none := by
          rw [after?_eq_some_iff.1 hr]
          exact Declaration.after?_eq_none (by decide) r
        exact ⟨v, rfl, fun x => .inr ⟨hnone (by decide) _ hself x, .inl (hread x)⟩⟩
      · obtain ⟨r, _, v, hr, hfound, heq, hread⟩ :=
          methodOf?_append_quote hq (by decide) habsent
        cases heq
        obtain rfl : rest = r := Option.some.inj hr
        have hself := after?_receiver_eq_none_of_name (w := "self") (by decide) hfound hname
        have hboth := after?_receiver_eq_none_of_name (w := "self?") (by decide) hfound hname
        exact ⟨v, rfl, fun x => .inr ⟨hnone (by decide) _ hself x,
          .inr ⟨hnone (by decide) _ hboth x, hread x⟩⟩⟩

theorem attributeName_append_quote (hq : isQuote q) (l x : Text) :
    Declaration.attributeName (l ++ q :: x) =
      ((Declaration.attributeName l).1, (Declaration.attributeName l).2 ++ q :: x) := by
  have hword := isWord_of_mem_delimiters (mem_delimiters_of_quote hq)
  obtain ⟨htake, hdrop⟩ := span_append hword l x
  rw [Declaration.attributeName, Declaration.attributeName, htake, hdrop]
  cases l.dropWhile Sym.isWord with
  | nil =>
      have hmark : q ∉ [Sym.char '?', .char '!'] := fun hmem => by
        rw [(by decide : ∀ s ∈ [Sym.char '?', .char '!'], isQuote s = false) q hmem] at hq
        cases hq
      simp only [List.mem_cons, List.not_mem_nil, or_false, not_or] at hmark
      simp [hmark]
  | cons s rest =>
      simp only [List.cons_append]
      split <;> rfl

/-- A variable in parentheses stands in front of the quote. -/
theorem afterVariable?_append_quote (hq : isQuote q) {l rest : Text}
    (h : Declaration.afterVariable? (l ++ [q]) = some rest) :
    ∃ v, rest = v ++ [q] ∧ ∀ x, Declaration.afterVariable? (l ++ q :: x) = some (v ++ q :: x) := by
  simp only [Declaration.afterVariable?, after?_append_quote hq "(" (by decide)] at h ⊢
  cases hopen : after? "(" l with
  | none =>
      simp only [hopen, Option.map_none, Option.some.injEq] at h
      exact ⟨l, h.symm, fun _ => rfl⟩
  | some inner =>
      simp only [hopen, Option.map_some, List.dropWhile_append] at h ⊢
      cases hclose : inner.dropWhile (· ≠ .char ')') with
      | nil =>
          have hne : q ≠ .char ')' := by
            rintro rfl
            cases hq
          have hstop : [q].dropWhile (· ≠ .char ')') = [] := by simp [hne]
          simp only [hclose, List.isEmpty_nil, if_true, hstop] at h
          cases h
      | cons s behind =>
          simp only [hclose, List.isEmpty_cons, if_neg Bool.false_ne_true,
            after?_append_quote hq ")" (by decide)] at h ⊢
          obtain ⟨more, hmore, rfl⟩ := Option.map_eq_some_iff.1 h
          obtain ⟨v, hv, rfl⟩ := Option.map_eq_some_iff.1 hmore
          refine ⟨trimLeft v, trimLeft_append_quote hq v [], fun x => ?_⟩
          rw [hv, Option.map_some, Option.map_some, trimLeft_append_quote hq]

theorem attributeOf?_append_quote (hq : isQuote q) {access : Access} {l : Text} {d : Declaration}
    (h : attributeOf? access (l ++ [q]) = some d) :
    ∃ scope name v, d = .attribute access scope name (v ++ [q]) ∧
      ∀ x, attributeOf? access (l ++ q :: x) =
        some (.attribute access scope name (v ++ q :: x)) := by
  have hreceiver (x : Text) : (after? "self." (l ++ q :: x)).getD (l ++ q :: x) =
      (after? "self." l).getD l ++ q :: x := by
    rw [after?_append_quote hq _ (by decide)]
    cases after? "self." l <;> rfl
  have hself (x : Text) : (after? "self." (l ++ q :: x)).isSome = (after? "self." l).isSome := by
    rw [after?_append_quote hq _ (by decide), Option.isSome_map]
  simp only [attributeOf?, hreceiver, hself, attributeName_append_quote hq,
    trimLeft_append_quote hq] at h ⊢
  obtain ⟨found, hvariable, h⟩ := Option.bind_eq_some_iff.1 h
  obtain ⟨v, rfl, hextend⟩ := afterVariable?_append_quote hq hvariable
  rw [after?_append_quote hq _ (by decide)] at h
  obtain ⟨behind, hbehind, h⟩ := Option.bind_eq_some_iff.1 h
  obtain ⟨w, hw, rfl⟩ := Option.map_eq_some_iff.1 hbehind
  have htype (x : Text) : trimLeft (w ++ q :: x) = trimLeft w ++ q :: x :=
    trimLeft_append_quote hq w x
  have hempty (x : Text) : (trimLeft w ++ q :: x).isEmpty = false := by simp
  simp only [htype, hempty] at h
  split at h
  · rename_i hname
    refine ⟨_, _, trimLeft w, (Option.some.inj h).symm, fun x => ?_⟩
    simp only [hextend x, Option.bind_eq_bind, Option.bind_some,
      after?_append_quote hq ":" (by decide), hw, Option.map_some, htype, hempty, hname,
      if_true]
    rfl
  · cases h

theorem attribute?_append_quote (hq : isQuote q) {l name type : Text} {access : Access}
    {scope : Scope}
    (h : Declaration.attribute? (l ++ [q]) = some (.attribute access scope name type)) :
    ∃ v, type = v ++ [q] ∧ ∀ x, Declaration.method? (l ++ q :: x) = none ∧
      Declaration.attribute? (l ++ q :: x) = some (.attribute access scope name (v ++ q :: x)) := by
  have hunquoted : ∀ k ∈ Declaration.attributeKeywords, IsUnquoted k.1 := by decide
  have hdef : ∀ k ∈ Declaration.attributeKeywords, Declaration.Apart "def" k.1 := by decide
  rw [attribute?_eq] at h
  obtain ⟨k, hk, hread⟩ := List.exists_of_findSome?_eq_some h
  rw [afterKeyword?_append_quote hq _ (hunquoted k hk)] at hread
  obtain ⟨found, hfound, hread⟩ := Option.bind_eq_some_iff.1 hread
  obtain ⟨rest, hrest, rfl⟩ := Option.map_eq_some_iff.1 hfound
  obtain ⟨_, _, v, heq, hextend⟩ := attributeOf?_append_quote hq hread
  cases heq
  obtain ⟨more, hmore⟩ := prefix_of_afterKeyword? hrest
  refine ⟨v, rfl, fun x => ⟨?_, ?_⟩⟩
  · rw [← hmore, List.append_assoc]
    exact Declaration.method?_eq_none (hdef k hk) _
  · rw [attribute?_eq]
    refine Declaration.findSome?_of_apart Prod.fst (by decide) hk (fun k' hapart => ?_) ?_
    · rw [← hmore, List.append_assoc, Declaration.afterKeyword?_eq_none hapart]
      rfl
    · rw [afterKeyword?_append_quote hq _ (hunquoted k hk), hrest, Option.map_some,
        Option.bind_some, hextend x]

end UpTo

/-! ### Lines -/

/-- A line that does not begin as a member declares none. -/
theorem member_eq_none {line : Text} (h : beginsMember line = false) :
    Declaration.method? line = none ∧ Declaration.attribute? line = none := by
  have hkeyword (keyword : Text) (hmem : keyword ∈ memberKeywords) :
      Declaration.afterKeyword? keyword line = none := by
    have hnone := List.any_eq_false.1 h keyword hmem
    rwa [Option.isSome_iff_ne_none, not_ne_iff] at hnone
  constructor
  · rw [method?_eq, hkeyword _ List.mem_cons_self]
    rfl
  · rw [attribute?_eq]
    refine List.findSome?_eq_none_iff.2 fun k hk => ?_
    rw [hkeyword k.1 (List.mem_cons_of_mem _ (List.mem_map_of_mem hk))]
    rfl

theorem beginsMember_eq {t u : Text} (h : Requoted t u) : beginsMember t = beginsMember u := by
  have hkeywords : ∀ keyword ∈ memberKeywords, IsUnquoted keyword := by decide
  rw [beginsMember, beginsMember, Bool.eq_iff_iff, List.any_eq_true, List.any_eq_true]
  refine exists_congr fun keyword => and_congr_right fun hkeyword => ?_
  have hrest := afterKeyword?_rel h (hkeywords keyword hkeyword)
  generalize Declaration.afterKeyword? keyword t = rest at hrest
  generalize Declaration.afterKeyword? keyword u = rest' at hrest
  cases hrest with
  | some | none => exact Iff.rfl

/-- Requoted texts are the same up to their first quote. -/
theorem Requoted.firstQuote {t u : Text} (h : Requoted t u) :
    IsUnquoted t ∨ ∃ before q behind behind', t = before ++ q :: behind ∧
      u = before ++ q :: behind' ∧ IsUnquoted before ∧ isQuote q ∧
      Requoted (q :: behind) (q :: behind') := by
  induction h with
  | nil => exact .inl (List.forall_mem_nil _)
  | @plain s t u hs h ih =>
      rcases ih with ht | ⟨before, q, behind, behind', rfl, rfl, hbefore, hq, hrest⟩
      · exact .inl (List.forall_mem_cons.2 ⟨hs, ht⟩)
      · exact .inr ⟨s :: before, q, behind, behind', rfl, rfl,
          List.forall_mem_cons.2 ⟨hs, hbefore⟩, hq, hrest⟩
  | @literal q c c' t u hc hc' h _ =>
      exact .inr ⟨[], q, _, _, rfl, rfl, List.forall_mem_nil _, hc.quote, .literal hc hc' h⟩

theorem exists_of_opening? {t : Text} {d : Declaration} (h : Declaration.opening? t = some d) :
    ∃ block closed, d = .opening block closed := by
  obtain ⟨kind, -, hread⟩ := List.exists_of_findSome?_eq_some h
  obtain ⟨rest, -, hread⟩ := Option.bind_eq_some_iff.1 hread
  obtain ⟨name, -, hread⟩ := Option.bind_eq_some_iff.1 hread
  exact ⟨_, _, (Option.some.inj hread).symm⟩

theorem exists_of_closing? {t : Text} {d : Declaration} (h : Declaration.closing? t = some d) :
    d = .closing := by
  rw [Declaration.closing?] at h
  split at h
  · split at h
    · exact (Option.some.inj h).symm
    · cases h
  · cases h

/-- A member is declared where no block is opened or closed. -/
theorem IsMember.of_ofLine {t : Text} (h : IsMember (Declaration.ofLine t)) :
    (∃ scopes name type, Declaration.method? t = some (.method scopes name type) ∧
      .char '.' ∉ name) ∨
    ∃ access scope name type,
      Declaration.attribute? t = some (.attribute access scope name type) := by
  rw [Declaration.ofLine] at h
  cases hopening : Declaration.opening? t with
  | some d =>
      obtain ⟨block, closed, rfl⟩ := exists_of_opening? hopening
      rw [hopening] at h
      cases h
  | none =>
      cases hclosing : Declaration.closing? t with
      | some d =>
          obtain rfl := exists_of_closing? hclosing
          rw [hopening, hclosing] at h
          cases h
      | none =>
          rw [hopening, hclosing] at h
          cases hmethod : Declaration.method? t with
          | some d =>
              obtain ⟨scopes, name, type, rfl, -⟩ := exists_of_method? hmethod
              rw [hmethod] at h
              cases h with
              | method scopes type hname => exact .inl ⟨scopes, name, type, rfl, hname⟩
          | none =>
              cases hattribute : Declaration.attribute? t with
              | some d =>
                  obtain ⟨access, scope, name, type, rfl, -⟩ := exists_of_attribute? hattribute
                  exact .inr ⟨access, scope, name, type, rfl⟩
              | none =>
                  rw [hmethod, hattribute] at h
                  cases h

theorem IsUnquoted.of_suffix {t v : Text} (ht : IsUnquoted t) (h : v <:+ t) : IsUnquoted v :=
  fun s hs => ht s (h.subset hs)

theorem suffix_of_concat {v l : Text} {q : Sym} (h : v ++ [q] <:+ l ++ [q]) : v <:+ l := by
  obtain ⟨w, hw⟩ := h
  rw [← List.append_assoc] at hw
  exact ⟨w, (List.append_inj' hw rfl).1⟩

/-- Lines that neither open nor close a block. -/
theorem declarationAlike_members {t u : Text} (h : Requoted t u) (ht : DeclaresFirst t) :
    DeclarationAlike ((Declaration.method? t <|> Declaration.attribute? t).getD .other)
      ((Declaration.method? u <|> Declaration.attribute? u).getD .other) := by
  cases hbegins : beginsMember t with
  | false =>
      have hbegins' : beginsMember u = false := by rw [← beginsMember_eq h, hbegins]
      rw [(member_eq_none hbegins).1, (member_eq_none hbegins).2, (member_eq_none hbegins').1,
        (member_eq_none hbegins').2]
      exact .other
  | true =>
      rcases h.firstQuote with hunquoted |
        ⟨before, q, behind, behind', rfl, rfl, hbefore, hq, hrest⟩
      · -- Without a literal the two lines are the same.
        rw [h.eq_of_isUnquoted hunquoted]
        cases hmethod : Declaration.method? t with
        | some d =>
            obtain ⟨scopes, name, type, rfl, htype⟩ := exists_of_method? hmethod
            exact .method scopes name (.of_isUnquoted (hunquoted.of_suffix htype))
        | none =>
            cases hattribute : Declaration.attribute? t with
            | some d =>
                obtain ⟨access, scope, name, type, rfl, htype⟩ := exists_of_attribute? hattribute
                exact .attribute access scope name (.of_isUnquoted (hunquoted.of_suffix htype))
            | none => exact .other
      · -- The declaration stands in front of the literal, whatever follows the quote.
        have htype {v : Text} (hv : v ++ [q] <:+ before ++ [q]) :
            Requoted (v ++ q :: behind) (v ++ q :: behind') :=
          (Requoted.of_isUnquoted (hbefore.of_suffix (suffix_of_concat hv))).append hrest
        rcases (ht before q behind rfl hbefore hq hbegins).of_ofLine with
          ⟨scopes, name, type, hmethod, hname⟩ | ⟨access, scope, name, type, hattribute⟩
        · obtain ⟨v, rfl, hread⟩ := method?_append_quote hq hmethod hname
          obtain ⟨_, _, _, heq, hsuffix⟩ := exists_of_method? hmethod
          cases heq
          rw [hread behind, hread behind']
          exact .method scopes name (htype hsuffix)
        · obtain ⟨v, rfl, hread⟩ := attribute?_append_quote hq hattribute
          obtain ⟨_, _, _, _, heq, hsuffix⟩ := exists_of_attribute? hattribute
          cases heq
          rw [(hread behind).1, (hread behind).2, (hread behind').1, (hread behind').2]
          exact .attribute access scope name (htype hsuffix)

/-- Requoted lines declare the same, up to types that are requoted. -/
theorem declarationAlike_ofLine {t u : Text} (h : Requoted t u) (ht : DeclaresFirst t) :
    DeclarationAlike (Declaration.ofLine t) (Declaration.ofLine u) := by
  rw [Declaration.ofLine, Declaration.ofLine, ← opening?_eq h, ← closing?_eq h]
  cases hopening : Declaration.opening? t with
  | some d =>
      obtain ⟨block, closed, rfl⟩ := exists_of_opening? hopening
      exact .opening block closed
  | none =>
      cases hclosing : Declaration.closing? t with
      | some d =>
          obtain rfl := exists_of_closing? hclosing
          exact .closing
      | none => exact declarationAlike_members h ht

end RubyDoc.Signature
