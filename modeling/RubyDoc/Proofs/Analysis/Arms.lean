import Mathlib.Data.List.Perm.Basic
import Mathlib.Data.List.Induction
import RubyDoc.Proofs.Analysis.Unify

/-!
# The arms of a case expression

The types of the arms are unified from left to right.  An optional type that comes out of this is
not `nil` and not its own type without the mark, so it meets either as a stranger: which type a case
expression has may depend on the order of its arms, on how often a type occurs, and a type may be
marked as optional twice (`tailType?_marked_twice`).  `tailType?_rearranged_iff` says when it does
not: if all arms have one type, or if neither an arm nor the fallback type is `nil`.
-/

namespace RubyDoc.Analysis

open RubyDoc.Syntax

variable {style : ResultStyle} {ts us : List Text} {t : Text}

/-! ## Many types that meet -/

/-- Do the types leave nothing to the order in which they meet?  They are all one type, or none of
them, nor the one that their meeting may give, is `nil`. -/
def IsSteady (style : ResultStyle) (ts : List Text) : Prop :=
  (∀ t ∈ ts, ∀ u ∈ ts, t = u) ∨ style.fallback ≠ nilType ∧ nilType ∉ ts

theorem unifyAll_concat (h : ts ≠ []) (t : Text) :
    unifyAll style (ts ++ [t]) = unify style (some (unifyAll style ts)) (some t) := by
  cases ts with
  | nil => exact absurd rfl h
  | cons a ts => exact List.foldl_concat ..

/-- A type that is not empty, or else the fallback type. -/
theorem orFallback_of_empty_imp (h : t = [] → style.fallback = []) :
    orFallback style.fallback (some t) = t := by
  cases t with
  | nil => exact h rfl
  | cons c t => rfl

section Meeting

variable (hempty : [] ∈ ts → style.fallback = [])

include hempty

theorem orFallback_of_mem (ht : t ∈ ts) : orFallback style.fallback (some t) = t :=
  orFallback_of_empty_imp fun h => hempty (h ▸ ht)

theorem unifyAll_of_forall_eq (hts : ts ≠ []) (h : ∀ u ∈ ts, u = t) : unifyAll style ts = t := by
  induction ts using List.reverseRecOn with
  | nil => exact absurd rfl hts
  | append_singleton ts u ih =>
      obtain rfl : u = t := h u (by simp)
      by_cases hnil : ts = []
      · subst hnil
        rfl
      have hu := orFallback_of_mem hempty (t := u) (by simp)
      rw [unifyAll_concat hnil, ih (fun he => hempty (List.mem_append_left _ he)) hnil
        fun v hv => h v (List.mem_append_left _ hv), unify_of_eq rfl, hu]

/-- Different types, none of them `nil`, give the fallback type. -/
theorem unifyAll_of_ne (hfallback : style.fallback ≠ nilType) (hnil : nilType ∉ ts)
    (h : ¬ ∀ t ∈ ts, ∀ u ∈ ts, t = u) : unifyAll style ts = style.fallback := by
  induction ts using List.reverseRecOn with
  | nil => rfl
  | append_singleton ts u ih =>
      have hempty' : [] ∈ ts → style.fallback = [] := fun he => hempty (List.mem_append_left _ he)
      have hnil' : nilType ∉ ts := fun hn => hnil (List.mem_append_left _ hn)
      have hu : orFallback style.fallback (some u) = u := orFallback_of_mem hempty (by simp)
      have hunil : u ≠ nilType := fun hu => hnil (hu ▸ by simp)
      have hts : ts ≠ [] := by
        rintro rfl
        exact h (by simp)
      rw [unifyAll_concat hts]
      by_cases hall : ∀ t ∈ ts, ∀ v ∈ ts, t = v
      · -- The last type is the first that differs.
        obtain ⟨a, ha⟩ := List.exists_mem_of_ne_nil _ hts
        have hne : a ≠ u := by
          rintro rfl
          have hone : ∀ t ∈ ts ++ [a], t = a := by
            intro t ht
            rcases List.mem_append.1 ht with ht | ht
            · exact hall t ht a ha
            · exact List.mem_singleton.1 ht
          exact h fun t ht v hv => (hone t ht).trans (hone v hv).symm
        rw [unifyAll_of_forall_eq hempty' hts fun v hv => hall v hv a ha]
        refine unify_of_ne ?_ ?_ ?_
        · rwa [orFallback_of_mem hempty' ha, hu]
        · rw [orFallback_of_mem hempty' ha]
          rintro rfl
          exact hnil' ha
        · rwa [hu]
      · -- The types differed before, and the fallback type absorbs the last one.
        rw [ih hempty' hnil' hall]
        by_cases heq : style.fallback = u
        · rw [unify_of_eq (by rw [heq]), orFallback_fallback]
        · refine unify_of_ne ?_ ?_ ?_
          · rwa [orFallback_fallback, hu]
          · rwa [orFallback_fallback]
          · rwa [hu]

/-- Steady types give what they give in any order and number. -/
theorem IsSteady.unifyAll_eq (h : IsSteady style ts) (hmem : ∀ t, t ∈ us ↔ t ∈ ts) :
    unifyAll style us = unifyAll style ts := by
  have hempty' : [] ∈ us → style.fallback = [] := fun he => hempty ((hmem []).1 he)
  by_cases hall : ∀ t ∈ ts, ∀ u ∈ ts, t = u
  · by_cases hts : ts = []
    · subst hts
      have hus : us = [] := List.eq_nil_iff_forall_not_mem.2 fun t ht => by
        have := (hmem t).1 ht
        cases this
      rw [hus]
    obtain ⟨a, ha⟩ := List.exists_mem_of_ne_nil _ hts
    have hus : us ≠ [] := List.ne_nil_of_mem ((hmem a).2 ha)
    rw [unifyAll_of_forall_eq hempty hts fun u hu => hall u hu a ha,
      unifyAll_of_forall_eq hempty' hus fun u hu => hall u ((hmem u).1 hu) a ha]
  · obtain ⟨hfallback, hnil⟩ := h.resolve_left hall
    rw [unifyAll_of_ne hempty hfallback hnil hall,
      unifyAll_of_ne hempty' hfallback (fun hn => hnil ((hmem nilType).1 hn)) fun hall' =>
        hall fun t ht u hu => hall' t ((hmem t).2 ht) u ((hmem u).2 hu)]

/-- Steady types give the fallback type or one of them. -/
theorem IsSteady.unifyAll_mem (h : IsSteady style ts) :
    unifyAll style ts = style.fallback ∨ unifyAll style ts ∈ ts := by
  by_cases hall : ∀ t ∈ ts, ∀ u ∈ ts, t = u
  · by_cases hts : ts = []
    · subst hts
      exact .inl rfl
    obtain ⟨a, ha⟩ := List.exists_mem_of_ne_nil _ hts
    rw [unifyAll_of_forall_eq hempty hts fun u hu => hall u hu a ha]
    exact .inr ha
  · obtain ⟨hfallback, hnil⟩ := h.resolve_left hall
    exact .inl (unifyAll_of_ne hempty hfallback hnil hall)

/-- Types that give the same when one of them comes once more are steady. -/
theorem isSteady_of_concat (h : ∀ t ∈ ts, unifyAll style (ts ++ [t]) = unifyAll style ts) :
    IsSteady style ts := by
  by_cases hts : ts = []
  · subst hts
    exact .inl (by simp)
  have hmeet : ∀ t ∈ ts, unify style (some (unifyAll style ts)) (some t) = unifyAll style ts :=
    fun t ht => by rw [← unifyAll_concat hts, h t ht]
  generalize unifyAll style ts = y at hmeet
  obtain ⟨a, ha⟩ := List.exists_mem_of_ne_nil _ hts
  have hy : orFallback style.fallback (some y) = y := by
    have hsettled := orFallback_unify style (some y) (some a)
    rwa [hmeet a ha] at hsettled
  -- What comes out either is the type that comes in, or else the fallback type.
  have hcases : ∀ t ∈ ts, t = y ∨ t ≠ nilType ∧ y ≠ nilType ∧ y = style.fallback := by
    intro t ht
    have hone := unify_cases style (some y) (some t)
    rw [hmeet t ht, hy, orFallback_of_mem hempty ht] at hone
    rcases hone with ⟨h, -⟩ | ⟨h, -, heq⟩ | ⟨-, -, heq⟩ | ⟨-, hynil, htnil, heq⟩
    · exact .inl h.symm
    · exact absurd (heq.symm.trans h) (optionalType_ne_nilType t)
    · exact absurd heq.symm (optionalType_ne_self y)
    · exact .inr ⟨htnil, hynil, heq⟩
  by_cases hall : ∀ t ∈ ts, t = y
  · exact .inl fun t ht u hu => (hall t ht).trans (hall u hu).symm
  · push Not at hall
    obtain ⟨t, ht, hne⟩ := hall
    obtain ⟨-, hynil, hyfallback⟩ := (hcases t ht).resolve_left hne
    refine .inr ⟨hyfallback ▸ hynil, fun hnil => ?_⟩
    rcases hcases nilType hnil with h | ⟨h, -⟩
    · exact hynil h.symm
    · exact h rfl

end Meeting

/-- Two types may always change places. -/
theorem unifyAll_eq_of_perm (h : us.Perm ts) (hts : ts.length ≤ 2) :
    unifyAll style us = unifyAll style ts := by
  match ts, hts with
  | [], _ => rw [List.perm_nil.1 h]
  | [a], _ => rw [List.perm_singleton.1 h]
  | [a, b], _ =>
      match us, h.length_eq with
      | [c, d], _ =>
          rcases List.mem_pair.1 (h.subset List.mem_cons_self) with rfl | rfl
          · rw [List.perm_singleton.1 h.cons_inv]
          · rw [List.perm_singleton.1 (h.trans (.swap _ _ _)).cons_inv]
            exact unify_comm (some c) (some a)

/-! ## Arms that are written otherwise -/

section Arms

variable (s : Source) (style : ResultStyle)

theorem armTypes_eq_flatMap (cs : List Node) :
    armTypes s style cs = cs.flatMap fun c => armTypes s style [c] := by
  induction cs with
  | nil => rw [armTypes]; rfl
  | cons c cs ih =>
      rw [List.flatMap_cons, ← ih, armTypes, armTypes, armTypes, List.append_nil]

theorem tailType?_case {n : Node} (h : n.kind = .caseExpr ∨ n.kind = .caseMatch) :
    tailType? s style n = some (unifyAll style (armTypes s style n.children)) := by
  obtain ⟨kind, field, startByte, endByte, row, isNamed, isMissing, hasError, children⟩ := n
  rcases h with rfl | rfl <;> rw [tailType?]

/-- Is the second node a case expression with the arms of the first in any order, and maybe more
arms of types that already occur?  Only the types of the arms count, so the second may stand in
another text. -/
def Rearranged (s s' : Source) (style : ResultStyle) (n n' : Node) : Prop :=
  (n'.kind = .caseExpr ∨ n'.kind = .caseMatch) ∧
    ∃ more, (armTypes s' style n'.children).Perm (armTypes s style n.children ++ more) ∧
      ∀ t ∈ more, t ∈ armTypes s style n.children

variable {s style}

/-- Other children in another order are a rearrangement, if the types of further arms occur. -/
theorem rearranged_of_perm {n n' : Node} (more : List Node)
    (h : n'.kind = .caseExpr ∨ n'.kind = .caseMatch) (hperm : n'.children.Perm (n.children ++ more))
    (hmore : ∀ t ∈ armTypes s style more, t ∈ armTypes s style n.children) :
    Rearranged s s style n n' := by
  refine ⟨h, armTypes s style more, ?_, hmore⟩
  rw [armTypes_eq_flatMap, armTypes_eq_flatMap s style n.children,
    armTypes_eq_flatMap s style more, ← List.flatMap_append]
  exact hperm.flatMap_right _

/-- Every type of an arm is that of an arm that can be written once more. -/
theorem exists_arm {cs : List Node} (h : t ∈ armTypes s style cs) :
    ∃ c ∈ cs, armTypes s style [c] = [t] := by
  rw [armTypes_eq_flatMap] at h
  obtain ⟨c, hc, ht⟩ := List.mem_flatMap.1 h
  refine ⟨c, hc, ?_⟩
  rw [armTypes, armTypes, List.append_nil] at ht ⊢
  split at ht
  · rw [Option.mem_toList] at ht
    rw [ht]
    rfl
  · rw [Option.mem_toList] at ht
    rw [ht]
    rfl
  · rw [Option.mem_toList] at ht
    rw [ht]
    rfl
  · cases ht

end Arms

/-- **When the arms of a case expression may be written otherwise.**  Let no arm have the empty
type, unless that is the fallback type.  Then arms in another order, and further arms of types that
already occur, leave the type of the expression as it is just if the types are steady: all arms have
one type, or neither an arm nor the fallback type is `nil`.  The type is then the fallback type or
that of an arm, so no arm adds a mark to it.  Two arms may change places in any case. -/
theorem tailType?_rearranged_iff (s : Source) (style : ResultStyle) (n : Node)
    (hcase : n.kind = .caseExpr ∨ n.kind = .caseMatch)
    (hempty : [] ∈ armTypes s style n.children → style.fallback = []) :
    ((∀ s' n', Rearranged s s' style n n' → tailType? s' style n' = tailType? s style n) ↔
        IsSteady style (armTypes s style n.children)) ∧
      (IsSteady style (armTypes s style n.children) →
        ∃ t, tailType? s style n = some t ∧
          (t = style.fallback ∨ t ∈ armTypes s style n.children)) ∧
      ((armTypes s style n.children).length ≤ 2 → ∀ s' n',
        (n'.kind = .caseExpr ∨ n'.kind = .caseMatch) →
        (armTypes s' style n'.children).Perm (armTypes s style n.children) →
          tailType? s' style n' = tailType? s style n) := by
  have htype := tailType?_case s style hcase
  refine ⟨⟨fun h => ?_, fun hsteady s' n' hn' => ?_⟩, fun hsteady => ?_,
    fun htwo s' n' hkind hperm => ?_⟩
  · -- One arm that is written once more is enough.
    refine isSteady_of_concat hempty fun t ht => ?_
    obtain ⟨c, -, hc⟩ := exists_arm ht
    have hchildren : armTypes s style (n.children ++ [c]) = armTypes s style n.children ++ [t] := by
      rw [armTypes_eq_flatMap, List.flatMap_append, ← armTypes_eq_flatMap, List.flatMap_singleton,
        hc]
    have hmore := h s { n with children := n.children ++ [c] } <|
      rearranged_of_perm [c] hcase (.refl _) fun u hu => by
        rw [hc, List.mem_singleton] at hu
        exact hu ▸ ht
    rw [htype, tailType?_case s style (n := { n with children := n.children ++ [c] }) hcase,
      hchildren] at hmore
    exact Option.some.inj hmore
  · obtain ⟨hkind, more, hperm, hmore⟩ := hn'
    rw [htype, tailType?_case s' style hkind, hsteady.unifyAll_eq hempty fun t => ?_]
    rw [hperm.mem_iff, List.mem_append]
    exact ⟨fun h => h.elim id (hmore t), .inl⟩
  · exact ⟨_, htype, hsteady.unifyAll_mem hempty⟩
  · -- Two types are unified by a symmetric operation.
    rw [htype, tailType?_case s' style hkind, unifyAll_eq_of_perm hperm htwo]

/-! ## Types that are not steady -/

/-- The arm of a case expression with one literal in it. -/
def literalArm (l : Literal) : Node :=
  ⟨.whenArm, none, 0, 0, 0, true, false, false,
    [⟨.thenBody, some .body, 0, 0, 0, true, false, false,
      [⟨.literal l, none, 0, 0, 0, true, false, false, []⟩]⟩]⟩

/-- A case expression with one literal in each arm. -/
def literalCase (ls : List Literal) : Node :=
  ⟨.caseExpr, none, 0, 0, 0, true, false, false, ls.map literalArm⟩

/-- Two strings and a symbol have the fallback type, in any order and number. -/
theorem tailType?_rearranged_literals :
    Rearranged (.ofText []) (.ofText []) {} (literalCase [.string, .simpleSymbol])
        (literalCase [.simpleSymbol, .string, .string]) ∧
      IsSteady {} (armTypes (.ofText []) {} (literalCase [.string, .simpleSymbol]).children) ∧
      tailType? (.ofText []) {} (literalCase [.simpleSymbol, .string, .string]) =
        tailType? (.ofText []) {} (literalCase [.string, .simpleSymbol]) := by
  have hrearranged : Rearranged (.ofText []) (.ofText []) {} (literalCase [.string, .simpleSymbol])
      (literalCase [.simpleSymbol, .string, .string]) :=
    rearranged_of_perm [literalArm .string] (.inl rfl) (.swap _ _ _) (by decide)
  have hsteady : IsSteady {}
      (armTypes (.ofText []) {} (literalCase [.string, .simpleSymbol]).children) :=
    .inr ⟨by decide, by decide⟩
  exact ⟨hrearranged, hsteady,
    (tailType?_rearranged_iff (.ofText []) {} (literalCase [.string, .simpleSymbol]) (.inl rfl)
      (by decide)).1.2 hsteady _ _ hrearranged⟩

/-- **Marked twice.**  A string and `nil` make an optional string.  One more `nil` makes it
optional twice, and with the `nil`s in front it is optional once; one more string between them
makes it the fallback type. -/
theorem tailType?_marked_twice :
    Rearranged (.ofText []) (.ofText []) {} (literalCase [.string, .nil])
        (literalCase [.string, .nil, .nil]) ∧
      tailType? (.ofText []) {} (literalCase [.string, .nil]) = some (Text.ofString "String?") ∧
      tailType? (.ofText []) {} (literalCase [.string, .nil, .nil]) =
        some (Text.ofString "String??") ∧
      Rearranged (.ofText []) (.ofText []) {} (literalCase [.string, .nil, .nil])
        (literalCase [.nil, .nil, .string]) ∧
      tailType? (.ofText []) {} (literalCase [.nil, .nil, .string]) =
        some (Text.ofString "String?") ∧
      tailType? (.ofText []) {} (literalCase [.string, .nil, .string]) =
        some (Text.ofString "Object") := by
  refine ⟨?_, by decide, by decide, ?_, by decide, by decide⟩
  · exact rearranged_of_perm [literalArm .nil] (.inl rfl) (.refl _) (by decide)
  · exact rearranged_of_perm [] (.inl rfl)
      (@List.perm_append_comm _ [literalArm .nil, literalArm .nil] [literalArm .string]) (by decide)

end RubyDoc.Analysis
