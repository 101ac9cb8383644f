import RubyDoc.Proofs.Analysis.Unify

/-!
# The tails of an expression

The value of an expression is that of one of its tails: the last statement of a sequence, an arm of
a conditional, a branch of a case expression.  `tailTypes` lists the types of all tails, and
`tailType?_of_tailTypes` says what the one inferred type tells about them: a certain type is that of
every tail, and a certain type with a `nil` beside it is that of every tail which is not `nil`.  The
fallback type tells nothing.

What the type of an expression says about its tails is its `Summary`.  Each rule of the inference
keeps it, so the proof is one lemma for each rule and an induction along the tree.
-/

namespace RubyDoc.Analysis

open RubyDoc.Syntax

/-! ## Tails -/

/-- The tails of a branch that has to give a value: a missing or empty one gives the fallback
type. -/
def orFallbackTail (fallback : Text) : List Text → List Text
  | [] => [fallback]
  | t :: ts => t :: ts

mutual

/-- The types of the tails of a node; none for an empty branch. -/
def tailTypes (s : Source) (style : ResultStyle) : Node → List Text
  | n@⟨kind, _, _, _, _, _, _, _, children⟩ =>
      match kind with
      | .body | .thenBody | .elseBody | .parentheses => lastTails s style children
      | .beginBlock =>
          if children.any fun c => c.isCode && c.kind = .rescue then [style.fallback]
          else lastTails s style children
      | .ifExpr | .unlessExpr | .elsifExpr | .ternary =>
          orFallbackTail style.fallback (fieldTails s style .consequence children) ++
            orFallbackTail style.fallback (fieldTails s style .alternative children)
      | .ifModifier | .unlessModifier =>
          orFallbackTail style.fallback (fieldTails s style .body children) ++ [style.fallback]
      | .caseExpr | .caseMatch => orFallbackTail style.fallback (armTails s style children)
      | .returnExpr => [returnedType s style n]
      | _ => [valueType s style.fallback n]

/-- The tails of the last statement of a sequence. -/
def lastTails (s : Source) (style : ResultStyle) : List Node → List Text
  | [] => []
  | c :: cs =>
      if cs.any fun d => d.isCode && isStatement d then lastTails s style cs
      else if c.isCode && isStatement c then tailTypes s style c
      else []

/-- The tails of the first node that fills the field `f`. -/
def fieldTails (s : Source) (style : ResultStyle) (f : Field) : List Node → List Text
  | [] => []
  | c :: cs => if c.field = some f then tailTypes s style c else fieldTails s style f cs

/-- The tails of the first `then` branch among the nodes. -/
def thenTails (s : Source) (style : ResultStyle) : List Node → List Text
  | [] => []
  | c :: cs =>
      if c.isNamed && c.kind = .thenBody then tailTypes s style c else thenTails s style cs

/-- The tails of a clause: of its body, or else of its `then` branch. -/
def clauseTails (s : Source) (style : ResultStyle) : Node → List Text
  | ⟨_, _, _, _, _, _, _, _, children⟩ =>
      if children.any fun c => c.field = some .body then fieldTails s style .body children
      else thenTails s style children

/-- The tails of all arms of a case expression. -/
def armTails (s : Source) (style : ResultStyle) : List Node → List Text
  | [] => []
  | c :: cs =>
      (match c.isCode, c.kind with
        | true, .elseBody => tailTypes s style c
        | true, .whenArm | true, .inArm => clauseTails s style c
        | _, _ => []) ++ armTails s style cs

end

/-! ## What a type tells about the tails -/

/-- Is the type neither a guess nor one of a value that may be `nil`? -/
def IsCertain (style : ResultStyle) (t : Text) : Prop :=
  t ≠ style.fallback ∧ isOptional t = false

/-- Is the type the fallback type, or one that says neither nothing nor `nil` beside another? -/
def IsSimple (style : ResultStyle) (t : Text) : Prop :=
  t = style.fallback ∨ (t ≠ [] ∧ isOptional t = false)

/-- Is the fallback type a type, and another one than `nil`? -/
structure IsProper (style : ResultStyle) : Prop where
  fallback_ne_empty : style.fallback ≠ []
  fallback_ne_nil : style.fallback ≠ nilType

/-- What the type `r` of an expression says about the types `ts` of its tails. -/
structure Summary (style : ResultStyle) (ts : List Text) (r : Option Text) : Prop where
  eq_none_iff : r = none ↔ ts = []
  ne_empty : r ≠ some []
  eq_of_all : ∀ t, ts ≠ [] → (∀ u ∈ ts, u = t) → r = some t
  all_of_eq : ∀ t, r = some t → IsCertain style t → ∀ u ∈ ts, u = t
  all_of_optional : ∀ t, r = some (optionalType style t) → optionalType style t ≠ style.fallback →
    IsCertain style t → t ≠ nilType →
      (∀ u ∈ ts, u = t ∨ u = nilType) ∧ t ∈ ts ∧ nilType ∈ ts

namespace Summary

variable {style : ResultStyle} {ts us : List Text} {r : Option Text} {a b : Text}

theorem none : Summary style [] none where
  eq_none_iff := iff_of_true rfl rfl
  ne_empty := by nofun
  eq_of_all _ h _ := absurd rfl h
  all_of_eq _ h _ := by cases h
  all_of_optional _ h _ _ _ := by cases h

/-- One tail. -/
theorem single (hstyle : IsProper style) (h : IsSimple style a) :
    Summary style [a] (some a) where
  eq_none_iff := by simp
  ne_empty ha := by
    obtain rfl := Option.some.inj ha
    rcases h with h | h
    · exact hstyle.fallback_ne_empty h.symm
    · exact h.1 rfl
  eq_of_all t _ h := by rw [h a (List.mem_singleton_self a)]
  all_of_eq t ht _ u hu := by rw [List.mem_singleton.1 hu, Option.some.inj ht]
  all_of_optional t ht hne _ _ := by
    obtain rfl := Option.some.inj ht
    have hoptional := isOptional_optionalType style t
    rcases h with h | ⟨-, h⟩
    · exact absurd h hne
    · rw [hoptional] at h
      cases h

/-- A branch that has to give a value. -/
theorem orFallback (hstyle : IsProper style) (h : Summary style ts r) :
    Summary style (orFallbackTail style.fallback ts)
      (some (Analysis.orFallback style.fallback r)) := by
  cases r with
  | none =>
      rw [h.eq_none_iff.1 rfl]
      exact single hstyle (.inl rfl)
  | some t =>
      have ht : t ≠ [] := fun ht => h.ne_empty (congrArg some ht)
      rw [orFallback_of_ne _ ht]
      cases ts with
      | nil => exact absurd (h.eq_none_iff.2 rfl) (by simp)
      | cons u ts => exact h

/-- A type and `nil` both occur where branches of either meet. -/
theorem both_occur {l : List Text} {t : Text} (hl : ∀ u, u ∈ l ↔ u ∈ ts ∨ u ∈ us) (hts : ts ≠ [])
    (hus : us ≠ []) (hall : ∀ u ∈ ts, u = t) (hnil : ∀ u ∈ us, u = nilType) :
    (∀ u ∈ l, u = t ∨ u = nilType) ∧ t ∈ l ∧ nilType ∈ l := by
  obtain ⟨u, hu⟩ := List.exists_mem_of_ne_nil _ hts
  obtain ⟨v, hv⟩ := List.exists_mem_of_ne_nil _ hus
  exact ⟨fun x hx => ((hl x).1 hx).imp (hall x) (hnil x), (hl t).2 (.inl (hall u hu ▸ hu)),
    (hl nilType).2 (.inr (hnil v hv ▸ hv))⟩

/-- Two branches that meet. -/
theorem unify (hstyle : IsProper style) (ha : Summary style ts (some a))
    (hb : Summary style us (some b)) :
    Summary style (ts ++ us) (some (unify style (some a) (some b))) := by
  have hts : ts ≠ [] := fun h => absurd (ha.eq_none_iff.2 h) (by simp)
  have hus : us ≠ [] := fun h => absurd (hb.eq_none_iff.2 h) (by simp)
  have hcases := unify_cases style (some a) (some b)
  rw [orFallback_of_ne _ fun h => ha.ne_empty (congrArg some h),
    orFallback_of_ne _ fun h => hb.ne_empty (congrArg some h)] at hcases
  have hcertain : IsCertain style nilType := ⟨Ne.symm hstyle.fallback_ne_nil, by decide⟩
  refine ⟨by simp [hts], fun h => ?_, fun t _ hall => ?_, fun t ht hcert => ?_,
    fun t ht hne hcert htnil => ?_⟩
  · -- Two types give no missing type.
    have hsettled := orFallback_unify style (some a) (some b)
    rw [Option.some.inj h] at hsettled
    exact hstyle.fallback_ne_empty hsettled
  · obtain ⟨hallts, hallus⟩ := List.forall_mem_append.1 hall
    obtain rfl := Option.some.inj (ha.eq_of_all t hts hallts)
    obtain rfl := Option.some.inj (hb.eq_of_all a hus hallus)
    rcases hcases with ⟨-, h⟩ | ⟨h, hne, -⟩ | ⟨hne, h, -⟩ | ⟨hne, -⟩
    · rw [h]
    · exact absurd h hne
    · exact absurd h hne
    · exact absurd rfl hne
  · obtain rfl := Option.some.inj ht
    rcases hcases with ⟨rfl, h⟩ | ⟨-, -, h⟩ | ⟨-, -, h⟩ | ⟨-, -, -, h⟩
    · rw [h] at hcert ⊢
      exact List.forall_mem_append.2 ⟨ha.all_of_eq a rfl hcert, hb.all_of_eq a rfl hcert⟩
    · rw [h] at hcert
      exact absurd hcert.2 (by simp [isOptional_optionalType])
    · rw [h] at hcert
      exact absurd hcert.2 (by simp [isOptional_optionalType])
    · exact absurd h hcert.1
  · -- An optional type is made of a type and `nil`, or was there on both sides.
    have ht := Option.some.inj ht
    rcases hcases with ⟨rfl, h⟩ | ⟨rfl, -, h⟩ | ⟨-, rfl, h⟩ | ⟨-, -, -, h⟩
    · rw [h] at ht
      obtain ⟨halla, hta, hna⟩ := ha.all_of_optional t (congrArg some ht) hne hcert htnil
      obtain ⟨hallb, -, -⟩ := hb.all_of_optional t (congrArg some ht) hne hcert htnil
      exact ⟨List.forall_mem_append.2 ⟨halla, hallb⟩, List.mem_append_left _ hta,
        List.mem_append_left _ hna⟩
    · rw [h, optionalType_inj] at ht
      subst ht
      exact both_occur (fun _ => List.mem_append.trans or_comm) hus hts
        (hb.all_of_eq b rfl hcert) (ha.all_of_eq nilType rfl hcertain)
    · rw [h, optionalType_inj] at ht
      subst ht
      exact both_occur (fun _ => List.mem_append) hts hus
        (ha.all_of_eq a rfl hcert) (hb.all_of_eq nilType rfl hcertain)
    · exact absurd (ht.symm.trans h) hne

end Summary

/-- What the types of arms say about the types of all their tails. -/
inductive Summaries (style : ResultStyle) : List Text → List Text → Prop
  | nil : Summaries style [] []
  | cons {ts us types : List Text} {t : Text} (h : Summary style ts (some t))
      (hrest : Summaries style us types) : Summaries style (ts ++ us) (t :: types)

namespace Summaries

variable {style : ResultStyle} {ts us types : List Text} {a : Text}

/-- One more arm, which is passed over if it is empty. -/
theorem arm {r : Option Text} (h : Summary style ts r) (hrest : Summaries style us types) :
    Summaries style (ts ++ us) (r.toList ++ types) := by
  cases r with
  | none =>
      rw [h.eq_none_iff.1 rfl]
      exact hrest
  | some t => exact cons h hrest

theorem foldl (hstyle : IsProper style) (ha : Summary style ts (some a))
    (h : Summaries style us types) :
    Summary style (ts ++ us)
      (some (types.foldl (fun acc t => unify style (some acc) (some t)) a)) := by
  induction h generalizing ts a with
  | nil => rwa [List.append_nil]
  | cons ht _ ih =>
      rw [← List.append_assoc]
      exact ih (ha.unify hstyle ht)

/-- All arms of a case expression. -/
theorem unifyAll (hstyle : IsProper style) (h : Summaries style ts types) :
    Summary style (orFallbackTail style.fallback ts) (some (unifyAll style types)) := by
  cases h with
  | nil => exact Summary.single hstyle (.inl rfl)
  | @cons ts us types t ht hrest =>
      cases ts with
      | nil => exact absurd (ht.eq_none_iff.2 rfl) (by simp)
      | cons u ts => exact foldl hstyle ht hrest

end Summaries

/-! ## The summary of an expression -/

theorem mem_orFallbackTail {fallback t : Text} {ts : List Text} (h : t ∈ ts) :
    t ∈ orFallbackTail fallback ts := by
  cases ts with
  | nil => cases h
  | cons u ts => exact h

variable {s : Source} {style : ResultStyle}

mutual

theorem summary_tailTypes (hstyle : IsProper style) : ∀ n : Node,
    (∀ t ∈ tailTypes s style n, IsSimple style t) →
    Summary style (tailTypes s style n) (tailType? s style n)
  | ⟨kind, field, startByte, endByte, row, isNamed, isMissing, hasError, children⟩, h => by
      cases kind
      case body | thenBody | elseBody | parentheses => exact summary_lastTails hstyle children h
      case beginBlock =>
        rw [tailTypes] at h ⊢
        rw [tailType?]
        split
        · exact .single hstyle (.inl rfl)
        · rename_i hrescue
          rw [if_neg hrescue] at h
          exact summary_lastTails hstyle children h
      case ifExpr | unlessExpr | elsifExpr | ternary =>
        obtain ⟨hthen, helse⟩ := List.forall_mem_append.1 h
        have hthen := (summary_fieldTails hstyle .consequence children fun t ht =>
          hthen t (mem_orFallbackTail ht)).orFallback hstyle
        have helse := (summary_fieldTails hstyle .alternative children fun t ht =>
          helse t (mem_orFallbackTail ht)).orFallback hstyle
        have hunify := hthen.unify hstyle helse
        rwa [unify_orFallback] at hunify
      case ifModifier | unlessModifier =>
        obtain ⟨hbody, -⟩ := List.forall_mem_append.1 h
        have hbody := (summary_fieldTails hstyle .body children fun t ht =>
          hbody t (mem_orFallbackTail ht)).orFallback hstyle
        have hunify := hbody.unify hstyle
          (Summary.none.orFallback hstyle)
        rwa [unify_orFallback] at hunify
      case caseExpr | caseMatch =>
        exact (summaries_armTails hstyle children fun t ht => h t (mem_orFallbackTail ht)).unifyAll
          hstyle
      all_goals exact .single hstyle (h _ (List.mem_singleton_self _))

theorem summary_lastTails (hstyle : IsProper style) : ∀ cs : List Node,
    (∀ t ∈ lastTails s style cs, IsSimple style t) →
    Summary style (lastTails s style cs) (lastType? s style cs)
  | [], _ => by
      rw [lastTails, lastType?]
      exact .none
  | c :: cs, h => by
      rw [lastTails] at h ⊢
      rw [lastType?]
      split
      · rename_i hlater
        rw [if_pos hlater] at h
        exact summary_lastTails hstyle cs h
      · rename_i hlater
        rw [if_neg hlater] at h
        split
        · rename_i hc
          rw [if_pos hc] at h
          exact summary_tailTypes hstyle c h
        · exact .none

theorem summary_fieldTails (hstyle : IsProper style) (f : Field) : ∀ cs : List Node,
    (∀ t ∈ fieldTails s style f cs, IsSimple style t) →
    Summary style (fieldTails s style f cs) (fieldType? s style f cs)
  | [], _ => by
      rw [fieldTails, fieldType?]
      exact .none
  | c :: cs, h => by
      rw [fieldTails] at h ⊢
      rw [fieldType?]
      split
      · rename_i hc
        rw [if_pos hc] at h
        exact summary_tailTypes hstyle c h
      · rename_i hc
        rw [if_neg hc] at h
        exact summary_fieldTails hstyle f cs h

theorem summary_thenTails (hstyle : IsProper style) : ∀ cs : List Node,
    (∀ t ∈ thenTails s style cs, IsSimple style t) →
    Summary style (thenTails s style cs) (thenType? s style cs)
  | [], _ => by
      rw [thenTails, thenType?]
      exact .none
  | c :: cs, h => by
      rw [thenTails] at h ⊢
      rw [thenType?]
      split
      · rename_i hc
        rw [if_pos hc] at h
        exact summary_tailTypes hstyle c h
      · rename_i hc
        rw [if_neg hc] at h
        exact summary_thenTails hstyle cs h

theorem summary_clauseTails (hstyle : IsProper style) : ∀ n : Node,
    (∀ t ∈ clauseTails s style n, IsSimple style t) →
    Summary style (clauseTails s style n) (clauseType? s style n)
  | ⟨_, _, _, _, _, _, _, _, children⟩, h => by
      rw [clauseTails] at h ⊢
      rw [clauseType?]
      split
      · rename_i hbody
        rw [if_pos hbody] at h
        exact summary_fieldTails hstyle .body children h
      · rename_i hbody
        rw [if_neg hbody] at h
        exact summary_thenTails hstyle children h

theorem summaries_armTails (hstyle : IsProper style) : ∀ cs : List Node,
    (∀ t ∈ armTails s style cs, IsSimple style t) →
    Summaries style (armTails s style cs) (armTypes s style cs)
  | [], _ => by
      rw [armTails, armTypes]
      exact .nil
  | c :: cs, h => by
      rw [armTails] at h ⊢
      rw [armTypes]
      obtain ⟨hc, hcs⟩ := List.forall_mem_append.1 h
      have hrest := summaries_armTails hstyle cs hcs
      generalize c.isCode = code, c.kind = kind at *
      cases code with
      | false => exact hrest
      | true =>
          cases kind with
          | elseBody => exact .arm (summary_tailTypes hstyle c hc) hrest
          | whenArm | inArm => exact .arm (summary_clauseTails hstyle c hc) hrest
          | _ => exact hrest

end

/-- **Types are never invented.**  Let every tail have the fallback type or a type that is neither
empty nor optional.  Then there is a type just if there is a tail; it is `t` if all tails have the
type `t`; and a type other than the fallback type tells what the tails are: a certain type is that
of every tail, and if it is a certain type `t` made optional, every tail has the type `t` or `nil`,
and both occur. -/
theorem tailType?_of_tailTypes (s : Source) (style : ResultStyle) (n : Node)
    (hstyle : IsProper style) (h : ∀ t ∈ tailTypes s style n, IsSimple style t) :
    (tailType? s style n = none ↔ tailTypes s style n = []) ∧
      (∀ t, tailTypes s style n ≠ [] → (∀ u ∈ tailTypes s style n, u = t) →
        tailType? s style n = some t) ∧
      (∀ t, tailType? s style n = some t → IsCertain style t →
        ∀ u ∈ tailTypes s style n, u = t) ∧
      ∀ t, tailType? s style n = some (optionalType style t) →
        optionalType style t ≠ style.fallback → IsCertain style t → t ≠ nilType →
          (∀ u ∈ tailTypes s style n, u = t ∨ u = nilType) ∧
            t ∈ tailTypes s style n ∧ nilType ∈ tailTypes s style n := by
  have hsummary := summary_tailTypes hstyle n h
  exact ⟨hsummary.eq_none_iff, hsummary.eq_of_all, hsummary.all_of_eq, hsummary.all_of_optional⟩

/-- The text of a case expression with a string, or else with `nil` in either arm of a choice. -/
def stringOrNil : Source :=
  .ofText "case x\nwhen 1 then \"a\"\nelse y ? nil : nil\nend\n"

/-- Its tree. -/
def stringOrNilCase : Node :=
  ⟨.caseExpr, none, 0, 44, 0, true, false, false,
    [⟨.identifier, some .value, 5, 6, 0, true, false, false, []⟩,
      ⟨.whenArm, none, 7, 22, 1, true, false, false,
        [⟨.other "pattern", some (.other "pattern"), 12, 13, 1, true, false, false,
            [⟨.literal .integer, none, 12, 13, 1, true, false, false, []⟩]⟩,
          ⟨.thenBody, some .body, 14, 22, 1, true, false, false,
            [⟨.literal .string, none, 19, 22, 1, true, false, false,
              [⟨.stringContent, none, 20, 21, 1, true, false, false, []⟩]⟩]⟩]⟩,
      ⟨.elseBody, none, 23, 41, 2, true, false, false,
        [⟨.ternary, none, 28, 41, 2, true, false, false,
          [⟨.identifier, some (.other "condition"), 28, 29, 2, true, false, false, []⟩,
            ⟨.literal .nil, some .consequence, 32, 35, 2, true, false, false, []⟩,
            ⟨.literal .nil, some .alternative, 38, 41, 2, true, false, false, []⟩]⟩]⟩]⟩

/-- The type is that of an optional string, so every tail is a string or `nil`. -/
theorem tailType?_of_tailTypes_stringOrNil :
    IsProper {} ∧ (∀ t ∈ tailTypes stringOrNil {} stringOrNilCase, IsSimple {} t) ∧
      tailType? stringOrNil {} stringOrNilCase = some (Text.ofString "String?") ∧
      (∀ u ∈ tailTypes stringOrNil {} stringOrNilCase,
        u = Text.ofString "String" ∨ u = nilType) ∧
      Text.ofString "String" ∈ tailTypes stringOrNil {} stringOrNilCase ∧
      nilType ∈ tailTypes stringOrNil {} stringOrNilCase := by
  have hstyle : IsProper {} := ⟨by decide, by decide⟩
  have htails : tailTypes stringOrNil {} stringOrNilCase =
      [Text.ofString "String", nilType, nilType] := rfl
  have hsimple : ∀ t ∈ tailTypes stringOrNil {} stringOrNilCase, IsSimple {} t := by
    rw [htails]
    unfold IsSimple
    decide
  have htype : tailType? stringOrNil {} stringOrNilCase = some (Text.ofString "String?") := by
    decide
  obtain ⟨-, -, -, hoptional⟩ :=
    tailType?_of_tailTypes stringOrNil {} stringOrNilCase hstyle hsimple
  exact ⟨hstyle, hsimple, htype,
    hoptional (Text.ofString "String") htype (by decide) ⟨by decide, by decide⟩ (by decide)⟩

end RubyDoc.Analysis
