import RubyDoc.Analysis.Parameter
import RubyDoc.Analysis.Result
import RubyDoc.Proofs.Analysis.Raised
import RubyDoc.Proofs.Text.Break

/-!
# What can break an inferred type

Inferred types and the names of exceptions are put together from fixed words, the fallback type and
the constants of the tree.  So if one of them holds a line break, the fallback type or a constant
in it does.
-/

namespace RubyDoc.Analysis

open RubyDoc.Syntax Node Text

/-- Does `P` hold of the text of every constant in the tree? -/
def Constants (P : Text → Prop) (s : Source) (n : Node) : Prop :=
  n.Everywhere fun m => m.kind = .constant → P (s.textOf m)

variable {P : Text → Prop} {s : Source}

theorem Constants.child {n c : Node} (h : Constants P s n) (hc : c ∈ n.children) :
    Constants P s c :=
  Everywhere.child h hc

theorem Constants.ofConstant {n : Node} (h : Constants P s n) (hn : n.kind = .constant) :
    BrokenBy P (s.textOf n) :=
  .ofPart (Everywhere.self h hn)

/-! ## Constants -/

mutual

theorem brokenBy_constantPath? :
    ∀ n : Node, Constants P s n → ∀ t, constantPath? s n = some t → BrokenBy P t
  | ⟨kind, _, _, _, _, _, _, _, children⟩, h, t, ht => by
      unfold constantPath? at ht
      split at ht
      · rw [← Option.some.inj ht]
        exact h.ofConstant rfl
      · split at ht
        · rename_i last hlast
          split at ht
          · rename_i hkind
            obtain ⟨scope, hscope, rfl⟩ := Option.map_eq_some_iff.1 ht
            have hin : last ∈ children := List.mem_of_find?_eq_some hlast
            exact (brokenBy_scopePath? children (fun c hc => h.child hc) scope hscope).append
              ((h.child hin).ofConstant hkind)
          · cases ht
        · cases ht
      · cases ht

theorem brokenBy_scopePath? :
    ∀ cs : List Node, (∀ c ∈ cs, Constants P s c) → ∀ t, scopePath? s cs = some t → BrokenBy P t
  | [], _, t, ht => by
      rw [← Option.some.inj ht]
      exact .ofUnbroken rfl
  | c :: cs, h, t, ht => by
      obtain ⟨hc, hcs⟩ := List.forall_mem_cons.1 h
      rw [scopePath?] at ht
      split at ht
      · obtain ⟨path, hpath, rfl⟩ := Option.map_eq_some_iff.1 ht
        exact (brokenBy_constantPath? c hc path hpath).append (.ofUnbroken rfl)
      · exact brokenBy_scopePath? cs hcs t ht

end

theorem brokenBy_lastSegment? {n : Node} (h : Constants P s n) (t : Text)
    (ht : lastSegment? s n = some t) : BrokenBy P t := by
  rw [lastSegment?] at ht
  split at ht
  · rename_i hkind
    rw [← Option.some.inj ht]
    exact h.ofConstant hkind
  · split at ht
    · rename_i last hlast
      split at ht
      · rename_i hkind
        rw [← Option.some.inj ht]
        exact (h.child (mem_children_of_child? hlast)).ofConstant hkind
      · cases ht
    · cases ht
  · cases ht

/-! ## Exceptions -/

theorem brokenBy_nonempty? {t? : Option Text} (h : ∀ t, t? = some t → BrokenBy P t) (t : Text)
    (ht : t?.bind Source.nonempty? = some t) : BrokenBy P t := by
  obtain ⟨u, hu, ht⟩ := Option.bind_eq_some_iff.1 ht
  obtain ⟨rfl, -⟩ := Source.of_nonempty?_eq_some ht
  exact h u hu

theorem brokenBy_errorClass {n : Node} (h : Constants P s n) : BrokenBy P (errorClass s n) :=
  .getD (brokenBy_nonempty? (brokenBy_constantPath? n h)) (.ofUnbroken rfl)

theorem Constants.errorClasses {n : Node} (h : Constants P s n) :
    n.Everywhere fun m => BrokenBy P (errorClass s m) :=
  fun m hm => brokenBy_errorClass (everywhere_everywhere n h m hm)

theorem brokenBy_handledErrors {clause : Node} (h : Constants P s clause) :
    ∀ error ∈ handledErrors s clause, BrokenBy P error :=
  forall_mem_handledErrors (.ofUnbroken rfl) h.errorClasses

theorem brokenBy_raisedTypes {method : Node} (h : Constants P s method) :
    ∀ error ∈ raisedTypes s method, BrokenBy P error :=
  forall_mem_raisedTypes (.ofUnbroken rfl) h.errorClasses

/-! ## Values -/

theorem isBroken_literalType (l : Literal) : isBroken (literalType l) = false := by
  cases l <;> rfl

theorem brokenBy_signedType? {n : Node} (t : Text) (ht : signedType? s n = some t) :
    BrokenBy P t := by
  obtain ⟨operand, -, ht⟩ := Option.bind_eq_some_iff.1 ht
  obtain ⟨sign, -, ht⟩ := Option.bind_eq_some_iff.1 ht
  have hliteral : ∃ l, t = literalType l := by
    cases hkind : operand.kind with
    | literal l =>
        rw [hkind] at ht
        split at ht
        · split at ht
          · exact ⟨_, (Option.some.inj ht).symm⟩
          · cases ht
        · split at ht
          · exact ⟨_, (Option.some.inj ht).symm⟩
          · cases ht
        · cases ht
    | _ =>
        rw [hkind] at ht
        cases ht
  obtain ⟨l, rfl⟩ := hliteral
  exact .ofUnbroken (isBroken_literalType l)

theorem brokenBy_constructedType? {n : Node} (h : Constants P s n) (t : Text)
    (ht : constructedType? s n = some t) : BrokenBy P t := by
  obtain ⟨receiver, hreceiver, ht⟩ := Option.bind_eq_some_iff.1 ht
  obtain ⟨method, -, ht⟩ := Option.bind_eq_some_iff.1 ht
  split at ht
  · exact brokenBy_lastSegment? (h.child (mem_children_of_child? hreceiver)) t ht
  · cases ht

section Fallback

variable {fallback : Text}

mutual

theorem brokenBy_valueType (hfallback : BrokenBy P fallback) :
    ∀ n : Node, Constants P s n → BrokenBy P (valueType s fallback n)
  | ⟨kind, _, _, _, _, _, _, _, children⟩, h => by
      unfold valueType
      split
      · exact .ofUnbroken (isBroken_literalType _)
      · exact .getD (brokenBy_nonempty? (brokenBy_lastSegment? h)) hfallback
      · exact .getD (brokenBy_nonempty? (brokenBy_lastSegment? h)) hfallback
      · exact .getD brokenBy_signedType? hfallback
      · exact .getD (brokenBy_nonempty? (brokenBy_constructedType? h)) hfallback
      · exact brokenBy_soleType hfallback children fun c hc => h.child hc
      · exact hfallback

theorem brokenBy_soleType (hfallback : BrokenBy P fallback) :
    ∀ cs : List Node, (∀ c ∈ cs, Constants P s c) → BrokenBy P (soleType s fallback cs)
  | [], _ => hfallback
  | c :: cs, h => by
      obtain ⟨hc, hcs⟩ := List.forall_mem_cons.1 h
      rw [soleType]
      split
      · split
        · exact hfallback
        · exact brokenBy_valueType hfallback c hc
      · exact brokenBy_soleType hfallback cs hcs

end

theorem brokenBy_parameterType {style : ParameterStyle} (hfallback : BrokenBy P style.fallback)
    (kind : ParameterKind) (name : Text) {value : Option Node}
    (h : ∀ v, value = some v → Constants P s v) :
    BrokenBy P (parameterType s style kind name value) := by
  have hinferred : BrokenBy P ((value.map (valueType s style.fallback)).getD style.fallback) := by
    refine .getD (fun t ht => ?_) hfallback
    obtain ⟨v, hv, rfl⟩ := Option.map_eq_some_iff.1 ht
    exact brokenBy_valueType hfallback v (h v hv)
  cases kind with
  | rest => exact .ofUnbroken rfl
  | keywordRest => exact .ofUnbroken rfl
  | block => exact .ofUnbroken rfl
  | required => exact hinferred
  | optional => exact hinferred
  | keyword =>
      rw [parameterType]
      split
      · exact .ofUnbroken rfl
      · exact hfallback
  | optionalKeyword =>
      rw [parameterType]
      split
      · exact .ofUnbroken rfl
      · exact hinferred

/-- The default value of a parameter is a child of its node. -/
theorem value_of_parameterShape? {n : Node} {kind : ParameterKind} {name : Text}
    {value : Option Node} (h : parameterShape? s n = some (kind, name, value)) :
    ∀ v, value = some v → v ∈ n.children := by
  have hvalue : value = none ∨ value = n.child? .value := by
    rw [parameterShape?] at h
    split at h
    · exact Or.inl (Prod.mk.inj (Prod.mk.inj (Option.some.inj h)).2).2.symm
    · exact Or.inr (Prod.mk.inj (Prod.mk.inj (Option.some.inj h)).2).2.symm
    · exact Or.inr (Prod.mk.inj (Prod.mk.inj (Option.some.inj h)).2).2.symm
    · exact Or.inl (Prod.mk.inj (Prod.mk.inj (Option.some.inj h)).2).2.symm
    · exact Or.inl (Prod.mk.inj (Prod.mk.inj (Option.some.inj h)).2).2.symm
    · exact Or.inl (Prod.mk.inj (Prod.mk.inj (Option.some.inj h)).2).2.symm
    · cases h
  intro v hv
  rcases hvalue with hnone | hchild
  · rw [hnone] at hv
    cases hv
  · exact mem_children_of_child? (hchild ▸ hv)

theorem brokenBy_parameters {style : ParameterStyle} (hfallback : BrokenBy P style.fallback)
    {method : Node} (h : Constants P s method) :
    ∀ p ∈ parameters s style method, BrokenBy P p.type := by
  intro p hp
  obtain ⟨n, hn, hparameter⟩ := List.mem_filterMap.1 hp
  obtain ⟨⟨kind, name, value⟩, hshape, hparameter⟩ := Option.bind_eq_some_iff.1 hparameter
  change (if name.isEmpty then none
    else some ⟨name, kind, parameterType s style kind name value⟩ : Option Parameter) = some p
    at hparameter
  split at hparameter
  · cases hparameter
  · rw [← Option.some.inj hparameter]
    refine brokenBy_parameterType hfallback kind name fun v hv => ?_
    exact Constants.child (Everywhere.codeOf h hn) (value_of_parameterShape? hshape v hv)

end Fallback

/-! ## Results -/

section Results

variable {style : ResultStyle}

theorem brokenBy_orFallback (hfallback : BrokenBy P style.fallback) {t? : Option Text}
    (h : ∀ t, t? = some t → BrokenBy P t) :
    BrokenBy P (orFallback style.fallback t?) := by
  unfold orFallback
  split
  · exact h _ rfl
  · exact hfallback

theorem brokenBy_optionalType {t : Text} (h : BrokenBy P t) :
    BrokenBy P (optionalType style t) := by
  rw [optionalType]
  split
  · exact h.append (.ofUnbroken rfl)
  · exact (h.append (.ofUnbroken rfl)).append (.ofUnbroken rfl)

theorem brokenBy_unify (hfallback : BrokenBy P style.fallback) {a b : Option Text}
    (ha : ∀ t, a = some t → BrokenBy P t) (hb : ∀ t, b = some t → BrokenBy P t) :
    BrokenBy P (unify style a b) := by
  have ha := brokenBy_orFallback hfallback ha
  have hb := brokenBy_orFallback hfallback hb
  rw [unify]
  split
  · exact ha
  · split
    · exact brokenBy_optionalType hb
    · split
      · exact brokenBy_optionalType ha
      · exact hfallback

theorem brokenBy_unifyAll (hfallback : BrokenBy P style.fallback) {ts : List Text}
    (h : ∀ t ∈ ts, BrokenBy P t) :
    BrokenBy P (unifyAll style ts) := by
  cases ts with
  | nil => exact hfallback
  | cons t ts =>
      obtain ⟨ht, hts⟩ := List.forall_mem_cons.1 h
      rw [unifyAll]
      induction ts generalizing t with
      | nil => exact ht
      | cons u us ih =>
          obtain ⟨hu, hus⟩ := List.forall_mem_cons.1 hts
          have hjoined : BrokenBy P (unify style (some t) (some u)) :=
            brokenBy_unify hfallback (fun _ h => Option.some.inj h ▸ ht)
              fun _ h => Option.some.inj h ▸ hu
          exact ih _ (List.forall_mem_cons.2 ⟨hjoined, hus⟩) hjoined hus

theorem brokenBy_returnedType (hfallback : BrokenBy P style.fallback) {n : Node}
    (h : Constants P s n) :
    BrokenBy P (returnedType s style n) := by
  have hcode : ∀ v ∈ n.code, Constants P s v := fun v hv => h.child (mem_children_of_code hv)
  unfold returnedType
  cases hlist : n.code with
  | nil => exact hfallback
  | cons first rest =>
      rw [hlist] at hcode
      have hvalues : ∀ v ∈ (if first.kind = .argumentList then first.code else first :: rest),
          Constants P s v := by
        intro v hv
        split at hv
        · exact (hcode first List.mem_cons_self).child (mem_children_of_code hv)
        · exact hcode v hv
      dsimp only
      split
      · exact hfallback
      · rename_i v hone
        exact brokenBy_valueType hfallback v (hvalues v (by rw [hone]; exact List.mem_cons_self))
      · exact .ofUnbroken rfl

mutual

theorem brokenBy_tailType? (hfallback : BrokenBy P style.fallback) :
    ∀ n : Node, Constants P s n → ∀ t, tailType? s style n = some t → BrokenBy P t
  | ⟨kind, _, _, _, _, _, _, _, children⟩, h, t, ht => by
      have hchildren : ∀ c ∈ children, Constants P s c := fun c hc => h.child hc
      unfold tailType? at ht
      split at ht
      · exact brokenBy_lastType? hfallback children hchildren t ht
      · exact brokenBy_lastType? hfallback children hchildren t ht
      · exact brokenBy_lastType? hfallback children hchildren t ht
      · exact brokenBy_lastType? hfallback children hchildren t ht
      · split at ht
        · exact Option.some.inj ht ▸ hfallback
        · exact brokenBy_lastType? hfallback children hchildren t ht
      -- An expression with two branches joins their types; a modifier has only one.
      · exact Option.some.inj ht ▸ brokenBy_unify hfallback
          (brokenBy_fieldType? hfallback .consequence children hchildren)
          (brokenBy_fieldType? hfallback .alternative children hchildren)
      · exact Option.some.inj ht ▸ brokenBy_unify hfallback
          (brokenBy_fieldType? hfallback .consequence children hchildren)
          (brokenBy_fieldType? hfallback .alternative children hchildren)
      · exact Option.some.inj ht ▸ brokenBy_unify hfallback
          (brokenBy_fieldType? hfallback .consequence children hchildren)
          (brokenBy_fieldType? hfallback .alternative children hchildren)
      · exact Option.some.inj ht ▸ brokenBy_unify hfallback
          (brokenBy_fieldType? hfallback .consequence children hchildren)
          (brokenBy_fieldType? hfallback .alternative children hchildren)
      · exact Option.some.inj ht ▸ brokenBy_unify hfallback
          (brokenBy_fieldType? hfallback .body children hchildren) fun _ h => by cases h
      · exact Option.some.inj ht ▸ brokenBy_unify hfallback
          (brokenBy_fieldType? hfallback .body children hchildren) fun _ h => by cases h
      · exact Option.some.inj ht ▸ brokenBy_unifyAll hfallback
          (brokenBy_armTypes hfallback children hchildren)
      · exact Option.some.inj ht ▸ brokenBy_unifyAll hfallback
          (brokenBy_armTypes hfallback children hchildren)
      · exact Option.some.inj ht ▸ brokenBy_returnedType hfallback h
      · exact Option.some.inj ht ▸ brokenBy_valueType hfallback _ h

theorem brokenBy_lastType? (hfallback : BrokenBy P style.fallback) :
    ∀ cs : List Node, (∀ c ∈ cs, Constants P s c) →
      ∀ t, lastType? s style cs = some t → BrokenBy P t
  | [], _, t, ht => by cases ht
  | c :: cs, h, t, ht => by
      obtain ⟨hc, hcs⟩ := List.forall_mem_cons.1 h
      rw [lastType?] at ht
      split at ht
      · exact brokenBy_lastType? hfallback cs hcs t ht
      · split at ht
        · exact brokenBy_tailType? hfallback c hc t ht
        · cases ht

theorem brokenBy_fieldType? (hfallback : BrokenBy P style.fallback) (f : Field) :
    ∀ cs : List Node, (∀ c ∈ cs, Constants P s c) →
      ∀ t, fieldType? s style f cs = some t → BrokenBy P t
  | [], _, t, ht => by cases ht
  | c :: cs, h, t, ht => by
      obtain ⟨hc, hcs⟩ := List.forall_mem_cons.1 h
      rw [fieldType?] at ht
      split at ht
      · exact brokenBy_tailType? hfallback c hc t ht
      · exact brokenBy_fieldType? hfallback f cs hcs t ht

theorem brokenBy_thenType? (hfallback : BrokenBy P style.fallback) :
    ∀ cs : List Node, (∀ c ∈ cs, Constants P s c) →
      ∀ t, thenType? s style cs = some t → BrokenBy P t
  | [], _, t, ht => by cases ht
  | c :: cs, h, t, ht => by
      obtain ⟨hc, hcs⟩ := List.forall_mem_cons.1 h
      rw [thenType?] at ht
      split at ht
      · exact brokenBy_tailType? hfallback c hc t ht
      · exact brokenBy_thenType? hfallback cs hcs t ht

theorem brokenBy_clauseType? (hfallback : BrokenBy P style.fallback) :
    ∀ n : Node, Constants P s n → ∀ t, clauseType? s style n = some t → BrokenBy P t
  | ⟨_, _, _, _, _, _, _, _, children⟩, h, t, ht => by
      have hchildren : ∀ c ∈ children, Constants P s c := fun c hc => h.child hc
      unfold clauseType? at ht
      split at ht
      · exact brokenBy_fieldType? hfallback .body children hchildren t ht
      · exact brokenBy_thenType? hfallback children hchildren t ht

theorem brokenBy_armTypes (hfallback : BrokenBy P style.fallback) :
    ∀ cs : List Node, (∀ c ∈ cs, Constants P s c) → ∀ t ∈ armTypes s style cs, BrokenBy P t
  | [], _, t, ht => by cases ht
  | c :: cs, h, t, ht => by
      obtain ⟨hc, hcs⟩ := List.forall_mem_cons.1 h
      rw [armTypes, List.mem_append] at ht
      rcases ht with ht | ht
      · split at ht
        · exact brokenBy_tailType? hfallback c hc t (Option.mem_toList.1 ht)
        · exact brokenBy_clauseType? hfallback c hc t (Option.mem_toList.1 ht)
        · exact brokenBy_clauseType? hfallback c hc t (Option.mem_toList.1 ht)
        · cases ht
      · exact brokenBy_armTypes hfallback cs hcs t ht

end

/-- **What can break the types of the results.** -/
theorem brokenBy_returnSpec (hfallback : BrokenBy P style.fallback) {method : Node}
    (h : Constants P s method) : BrokenBy P (returnSpec s style method).normal ∧
      ∀ branch ∈ (returnSpec s style method).branches,
        (∀ error ∈ branch.1, BrokenBy P error) ∧ BrokenBy P branch.2 := by
  have hstatement : ∀ c ∈ method.statements, Constants P s c :=
    fun c hc => Everywhere.statement h hc
  have hlast : BrokenBy P (orFallback style.fallback
      ((method.statements.filter isStatement).getLast?.bind (tailType? s style))) := by
    refine brokenBy_orFallback hfallback fun t ht => ?_
    obtain ⟨c, hc, ht⟩ := Option.bind_eq_some_iff.1 ht
    exact brokenBy_tailType? hfallback c
      (hstatement c (List.mem_of_mem_filter (List.mem_of_getLast? hc))) t ht
  have hfield : ∀ f, ∀ c ∈ method.statements, BrokenBy P
      (orFallback style.fallback (fieldType? s style f c.children)) := fun f c hc =>
    brokenBy_orFallback hfallback
      (brokenBy_fieldType? hfallback f c.children fun m hm => (hstatement c hc).child hm)
  have hclauses : ∀ branch ∈ (method.statements.filter fun c => c.kind = .rescue).map
      (fun c => (handledErrors s c, orFallback style.fallback (clauseType? s style c))),
      (∀ error ∈ branch.1, BrokenBy P error) ∧ BrokenBy P branch.2 := by
    intro branch hbranch
    obtain ⟨c, hc, rfl⟩ := List.mem_map.1 hbranch
    have hc := hstatement c (List.mem_of_mem_filter hc)
    exact ⟨brokenBy_handledErrors hc,
      brokenBy_orFallback hfallback (brokenBy_clauseType? hfallback c hc)⟩
  have hnone : ∀ branch ∈ ([] : List (List Text × Text)),
      (∀ error ∈ branch.1, BrokenBy P error) ∧ BrokenBy P branch.2 :=
    fun branch hbranch => absurd hbranch List.not_mem_nil
  -- A body that is one rescue modifier has its field for the handler; other bodies have clauses.
  unfold returnSpec
  simp only
  split
  · rename_i only _ hstatements
    have honly : only ∈ method.statements :=
      List.mem_of_mem_filter (hstatements ▸ List.mem_cons_self)
    split
    · refine ⟨hfield .body only honly, fun branch hbranch => ?_⟩
      obtain rfl := List.mem_singleton.1 hbranch
      refine ⟨fun error herror => ?_, hfield .handler only honly⟩
      obtain rfl := List.mem_singleton.1 herror
      exact .ofUnbroken rfl
    · exact ⟨hlast, hnone⟩
  · exact ⟨hlast, hnone⟩
  · exact ⟨hlast, hclauses⟩

end Results

end RubyDoc.Analysis
