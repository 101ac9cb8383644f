import RubyDoc.Proofs.Edit.Layout

/-!
# Planned edits never collide

A plan replaces whole lines above the line of its definition.  With every definition on a line of
code, what is looked at for one definition never reaches up to the line of another one.  So plans
for one line have one range, a range for a lower line lies behind the upper line, and the distinct
ranges of a run do not even touch (`planAll_ranges_apart`).  What the plans put in the place of
their ranges plays no part here.
-/

namespace RubyDoc.Edit

open Text Comment Block Outline Signature Stanza

/-- Does a line of the text start at the offset `k`, at the top or just after a line feed? -/
def StartsLine (t : Text) (k : Nat) : Prop :=
  k = 0 ∨ ∃ j, k = j + 1 ∧ t[j]? = some Sym.lineFeed

/-- Does the range hold whole lines of the text, none of them in part? -/
structure CoversLines (t : Text) (r : Range) : Prop where
  start : StartsLine t r.start
  stop : StartsLine t r.stop
  exists_lines : ∃ ls, (∀ l ∈ ls, Sym.lineFeed ∉ l) ∧ (t.take r.stop).drop r.start = closed ls

/-- Is the plan one for the definition, which the filters allow, in some state of the lookups? -/
def PlannedFor (b : Builder) (mode : Mode) (d : Definition) (p : Plan) : Prop :=
  b.allows d = .ok true ∧ ∃ k, ((plan b mode d).run k).1 = some p

/-! ## Whole lines -/

theorem startsLine_closed (ls : List Text) (rest : Text) :
    StartsLine (closed ls ++ rest) (closed ls).length := by
  rcases List.eq_nil_or_concat' ls with rfl | ⟨above, l, rfl⟩
  · exact Or.inl rfl
  · have hclosed : closed (above ++ [l]) = (closed above ++ l) ++ [Sym.lineFeed] := by
      simp only [closed_append, closed_cons, closed_nil, List.append_assoc]
    refine Or.inr ⟨(closed above ++ l).length, ?_, ?_⟩
    · rw [hclosed, List.length_append, List.length_singleton]
    · rw [hclosed, List.append_assoc, List.getElem?_append_right (Nat.le_refl _), Nat.sub_self]
      rfl

theorem coversLines_closed (upper : List Text) {inner rest : List Text} (hrest : rest ≠ [])
    (hinner : ∀ l ∈ inner, Sym.lineFeed ∉ l) :
    CoversLines (ofLines (upper ++ inner ++ rest))
      ⟨(closed upper).length, (closed (upper ++ inner)).length⟩ where
  start := by
    rw [List.append_assoc, ofLines_append upper (by simp [hrest])]
    exact startsLine_closed upper _
  stop := by
    rw [ofLines_append (upper ++ inner) hrest]
    exact startsLine_closed (upper ++ inner) _
  exists_lines := by
    refine ⟨inner, hinner, ?_⟩
    rw [take_ofLines (upper ++ inner) hrest, closed_append, List.drop_left]

/-! ## The range for one definition -/

section One

variable {b : Builder} {mode : Mode} {d : Definition} {p : Plan}

theorem PlannedFor.planWith_eq (h : PlannedFor b mode d p) {ls : List Text} {l : Text}
    {below : List Text} (hstands : Stands b d ls l below) :
    ∃ lines, mode.planWith ls (l.takeWhile isIndentSym) lines = some p := by
  obtain ⟨-, k, hplan⟩ := h
  rw [hstands.run_plan mode k] at hplan
  exact ⟨_, hplan⟩

/-- A plan replaces whole lines above the line of its definition. -/
theorem PlannedFor.coversLines (h : PlannedFor b mode d p) :
    p.start ≤ p.stop ∧ p.stop ≤ lineOf b d ∧ CoversLines b.source.text p.range := by
  obtain ⟨ls, l, below, hstands⟩ := exists_stands b d
  obtain ⟨lines, hplan⟩ := h.planWith_eq hstands
  obtain ⟨-, rfl⟩ := Mode.planWith_eq_some hplan
  have hcut := (mode.cut ls).eq
  have hremoved : ∀ m ∈ (mode.cut ls).removed, Sym.lineFeed ∉ m := by
    intro m hm
    refine hstands.above_lineFeed_notMem m ?_
    rw [hcut]
    simp [hm]
  refine ⟨?_, ?_, ?_⟩
  · simp only [closed_append, List.length_append]
    omega
  · rw [hstands.lineOf_eq]
    conv_rhs => rw [hcut]
    simp only [closed_append, List.length_append]
    omega
  · have htext : b.source.text = ofLines ((mode.cut ls).upper ++ (mode.cut ls).removed ++
        ((mode.cut ls).lower ++ l :: below)) := by
      rw [← List.append_assoc, ← hcut]
      exact hstands.text
    rw [htext]
    exact coversLines_closed _ (by simp) hremoved

end One

/-! ## The ranges of a run -/

/-- The plans of a run are plans for some of its definitions, one each and in their order. -/
theorem PlanRun.exists_planned {b : Builder} {mode : Mode} {ds : List Definition} {l l' : Lookups}
    {plans : List Plan} (h : PlanRun b mode ds l plans l') :
    ∃ planned, planned.Sublist ds ∧ List.Forall₂ (PlannedFor b mode) planned plans := by
  induction h with
  | nil l => exact ⟨[], .slnil, .nil⟩
  | skip _ _ ih =>
      obtain ⟨planned, hsub, hplanned⟩ := ih
      exact ⟨planned, hsub.cons _, hplanned⟩
  | @step d _ l _ _ here _ hd hhere _ ih =>
      obtain ⟨planned, hsub, hplanned⟩ := ih
      cases here with
      | none => exact ⟨planned, hsub.cons d, hplanned⟩
      | some p =>
          have hp : PlannedFor b mode d p := ⟨hd, l, by rw [hhere]⟩
          exact ⟨d :: planned, hsub.cons_cons d, .cons hp hplanned⟩

namespace Layout

variable {b : Builder} {mode : Mode} {ds : List Definition} {ss : List Stanza} {below : List Text}
  (hlayout : Layout b mode ds ss below)
include hlayout

/-- Plans for two definitions: one range on one line, and else the lower range behind the upper
line. -/
theorem ranges_of_plannedFor {d e : Definition} (hd : d ∈ ds) (he : e ∈ ds) {p q : Plan}
    (hp : PlannedFor b mode d p) (hq : PlannedFor b mode e q) :
    (lineOf b d = lineOf b e → p.range = q.range) ∧
      (lineOf b d < lineOf b e → lineOf b d < q.start) := by
  obtain ⟨ss₁, s, ss₂, hat⟩ := hlayout.exists_at d hd
  obtain ⟨ts₁, t, ts₂, hat'⟩ := hlayout.exists_at e he
  obtain ⟨lines, hplan⟩ := hp.planWith_eq hat.stands
  obtain ⟨lines', hplan'⟩ := hq.planWith_eq hat'.stands
  have hrange := hlayout.range_eq hat.eq hplan
  have hrange' := hlayout.range_eq hat'.eq hplan'
  obtain ⟨hle, hline, -⟩ := hp.coversLines
  obtain ⟨hle', hline', -⟩ := hq.coversLines
  -- Either both stand on one line, or the stanza of one is above that of the other.
  rcases append_cons_cases (hat.eq.symm.trans hat'.eq) with
    ⟨rfl, rfl, -⟩ | ⟨more, rfl, -⟩ | ⟨more, rfl, -⟩
  · have hsame : lineOf b d = lineOf b e := by rw [hat.stands.lineOf_eq, hat'.stands.lineOf_eq]
    exact ⟨fun _ => hrange.trans hrange'.symm, fun hlt => by omega⟩
  · have hbehind : lineOf b d < q.start := by
      rw [hat.stands.lineOf_eq, show q.start = _ from congrArg Range.start hrange']
      exact lt_spot_start ss₁ s more t
    exact ⟨fun heq => by omega, fun _ => hbehind⟩
  · have hbehind : lineOf b e < p.start := by
      rw [hat'.stands.lineOf_eq, show p.start = _ from congrArg Range.start hrange]
      exact lt_spot_start ts₁ t more s
    exact ⟨fun heq => by omega, fun hlt => by omega⟩

end Layout

/-- **Planned edits never collide.**  With every definition on a line of code, each plan of a run
replaces whole lines above its definition, plans for one line have one range, the range for a lower
line lies behind the upper line, and distinct ranges lie apart. -/
theorem planAll_ranges_apart {b : Builder} {mode : Mode} {ds : List Definition} {l l' : Lookups}
    {plans : List Plan} (hds : ∀ d ∈ ds, isCode (lineWith b d))
    (hrun : (planAll b mode ds).run.run l = (.ok plans, l')) :
    (∃ planned, planned.Sublist (inTextOrder ds) ∧
      List.Forall₂ (PlannedFor b mode) planned plans) ∧
    (∀ d ∈ ds, ∀ p, PlannedFor b mode d p →
      p.start ≤ p.stop ∧ p.stop ≤ lineOf b d ∧ CoversLines b.source.text p.range) ∧
    (∀ d ∈ ds, ∀ e ∈ ds, ∀ p q, PlannedFor b mode d p → PlannedFor b mode e q →
      (lineOf b d = lineOf b e → p.range = q.range) ∧
        (lineOf b d < lineOf b e → lineOf b d < q.start)) ∧
    ∀ p ∈ plans, ∀ q ∈ plans, p.range ≠ q.range → p.stop < q.start ∨ q.stop < p.start := by
  obtain ⟨ss, below, hlayout, -, -⟩ := exists_layout b mode hds
  have hplanned := planEach_eq_ok_iff.1 hrun
  have hpair := fun d hd e he p q => @Layout.ranges_of_plannedFor _ _ _ _ _ hlayout d e hd he p q
  refine ⟨hplanned.exists_planned, fun d _ p hp => hp.coversLines, hpair, ?_⟩
  intro p hp q hq hne
  obtain ⟨d, hd, hallowed, k, -, -, hplan⟩ := hplanned.mem_plan hp
  obtain ⟨e, he, hallowed', k', -, -, hplan'⟩ := hplanned.mem_plan hq
  have hpd : PlannedFor b mode d p := ⟨hallowed, k, hplan⟩
  have hqe : PlannedFor b mode e q := ⟨hallowed', k', hplan'⟩
  have hd := mem_inTextOrder.1 hd
  have he := mem_inTextOrder.1 he
  have hstop := hpd.coversLines.2.1
  have hstop' := hqe.coversLines.2.1
  -- A plan stops at its line or above it, and a plan for a lower line starts below that line.
  rcases Nat.lt_trichotomy (lineOf b d) (lineOf b e) with hlt | heq | hgt
  · have := (hpair d hd e he p q hpd hqe).2 hlt
    exact Or.inl (by omega)
  · exact absurd ((hpair d hd e he p q hpd hqe).1 heq) hne
  · have := (hpair e he d hd q p hqe hpd).2 hgt
    exact Or.inr (by omega)

/-- Two methods on one line below a documentation, and a third one below a plain comment. -/
def crowdedText : Text :=
  "# @return [Text]\n\ndef go; end; def no; end\n# Says so.\ndef so; end\n"

/-- The three methods. -/
def crowdedMethods : List Definition :=
  [bareMethod "go" 18, bareMethod "no" 31, bareMethod "so" 54]

/-- The plan that renews the documentation of a bare method. -/
def renewBare (name : Text) (start stop : Nat) : Plan where
  start := start
  stop := stop
  lines := ("# +Object#" ++ name ++ "+ -> Object") :: bareBlock.drop 1
  indent := []

/-- The plans for the two methods on one line share their range, the third one lies behind. -/
theorem planAll_ranges_apart_crowded :
    (planAll (plainBuilder crowdedText) .replace crowdedMethods).run.run {} =
        (.ok [renewBare "go" 0 18, renewBare "no" 0 18, renewBare "so" 54 54], {}) ∧
      (renewBare "go" 0 18).range = (renewBare "no" 0 18).range ∧
      ((renewBare "go" 0 18).stop < (renewBare "so" 54 54).start ∨
        (renewBare "so" 54 54).stop < (renewBare "go" 0 18).start) := by
  have hsorted : inTextOrder crowdedMethods = crowdedMethods :=
    List.mergeSort_of_pairwise (by decide)
  have hrun : (planAll (plainBuilder crowdedText) .replace crowdedMethods).run.run {} =
      (.ok [renewBare "go" 0 18, renewBare "no" 0 18, renewBare "so" 54 54], {}) := by
    rw [planAll, hsorted]
    rfl
  obtain ⟨-, -, hpair, hapart⟩ := planAll_ranges_apart (by decide) hrun
  refine ⟨hrun, ?_, hapart _ (by simp) _ (by simp) (by decide)⟩
  refine
    (hpair (bareMethod "go" 18) ?_ (bareMethod "no" 31) ?_ _ _ ⟨rfl, {}, ?_⟩ ⟨rfl, {}, ?_⟩).1 ?_
  · exact List.mem_cons_self
  · exact List.mem_cons_of_mem _ List.mem_cons_self
  · rfl
  · rfl
  · rfl

end RubyDoc.Edit
