import RubyDoc.Proofs.Edit.Layout

/-!
# Planning for an edited text

Comment lines put above lines of code do not change what a parser makes of the code, they only shift
it.  `Reparsed` says this of the definitions of an edited text: each is the same member as before,
its text shows the same, and its node starts where the edit moved the start to.  That a parser
behaves so is assumed wherever the module is used, never proved.
-/

namespace RubyDoc.Edit

open Text Comment Block Outline Signature Lookups Stanza

/-- The source `src'` holds the text after the plans, and `image` takes every definition to the same
member of that text, where the plans moved it. -/
structure Reparsed (b : Builder) (ds : List Definition) (plans : List Plan) (src' : Syntax.Source)
    (image : Definition → Definition) : Prop where
  text : src'.text = apply b.source.text plans
  startOf : ∀ d ∈ ds, src'.startOf (image d).node =
    moved b.source.text plans (b.source.startOf d.node)
  startByte_le_iff : ∀ d ∈ ds, ∀ e ∈ ds,
    (image d).node.startByte ≤ (image e).node.startByte ↔ d.node.startByte ≤ e.node.startByte
  alike : ∀ d ∈ ds, Alike b.settings b.source d src' (image d)

theorem allows_eq {b : Builder} {src' : Syntax.Source} {d d' : Definition}
    (h : Alike b.settings b.source d src' d') :
    Builder.allows { b with source := src' } d' = b.allows d := by
  simp only [Builder.allows, Filter.allows, h.role, h.container, h.scope, h.visibility, h.name]

/-- With filters that work, nothing is planned when no definition has a plan. -/
theorem planAll_eq_nil {b : Builder} {mode : Mode} {ds : List Definition} {m m' : Lookups}
    {r : Except Failure (List Plan)} (hrun : (planAll b mode ds).run.run m = (r, m'))
    (hallows : ∀ d ∈ ds, ∃ allowed, b.allows d = .ok allowed)
    (hnone : ∀ d ∈ ds, b.allows d = .ok true → ∀ k, Reaches b.provider m k →
      Reaches b.provider ((plan b mode d).run k).2 m' → ((plan b mode d).run k).1 = none) :
    r = .ok [] := by
  obtain ⟨plans, m'', hplanned⟩ := @PlanRun.exists_of_allows b mode (inTextOrder ds)
    (fun d hd => hallows d (mem_inTextOrder.1 hd)) m
  have heq := planEach_eq_ok_iff.2 hplanned
  rw [planAll, heq, Prod.mk.injEq] at hrun
  obtain ⟨rfl, rfl⟩ := hrun
  have hnil : plans = [] := by
    refine List.eq_nil_iff_forall_not_mem.2 fun p hp => ?_
    obtain ⟨d, hd, hallowed, k, hbefore, hafter, hplan⟩ := hplanned.mem_plan hp
    rw [hnone d (mem_inTextOrder.1 hd) hallowed k hbefore hafter] at hplan
    cases hplan
  rw [hnil]

theorem apply_nil (text : Text) : apply text [] = text := by
  rw [apply, ranges, List.map_nil, List.eraseDups_nil, List.mergeSort_nil]
  rfl

/-- The filters allow the same members of the edited text, and work as well. -/
theorem PlanRun.allows_image {b : Builder} {mode : Mode} {ds : List Definition} {l l' : Lookups}
    {plans : List Plan} (hrun : PlanRun b mode (inTextOrder ds) l plans l') {src' : Syntax.Source}
    {image : Definition → Definition} (h : Reparsed b ds plans src' image) :
    ∀ d' ∈ ds.map image, ∃ allowed,
      Builder.allows { b with source := src' } d' = .ok allowed := by
  intro d' hd'
  obtain ⟨d, hd, rfl⟩ := List.mem_map.1 hd'
  rw [allows_eq (h.alike d hd)]
  exact hrun.allows_isOk d (mem_inTextOrder.2 hd)

/-- Lines of code stay lines of code. -/
theorem isCode_of_mem_editedAll {cut : ∀ ls : List Text, Cut ls} {text : Text} {plans : List Plan}
    {pre : List Text} {ss : List Stanza} (hcode : ∀ s ∈ ss, isCode s.line) {t : Stanza}
    (ht : t ∈ editedAll cut text plans pre ss) : isCode t.line := by
  have hmem := List.mem_map_of_mem (f := Stanza.line) ht
  rw [map_line_editedAll] at hmem
  obtain ⟨s, hs, hline⟩ := List.mem_map.1 hmem
  exact hline ▸ hcode s hs

namespace Layout

variable {b : Builder} {mode : Mode} {ds : List Definition} {ss : List Stanza} {below : List Text}
  {plans : List Plan} {l l' : Lookups} {src' : Syntax.Source} {image : Definition → Definition}
  (hlayout : Layout b mode ds ss below) (hrun : PlanRun b mode (inTextOrder ds) l plans l')
  (hlf : ∀ p ∈ plans, ∀ line ∈ p.lines, Sym.lineFeed ∉ line) (h : Reparsed b ds plans src' image)
  {d : Definition} (hd : d ∈ ds) {ss₁ : List Stanza} {s : Stanza} {ss₂ : List Stanza}
  (hat : At b ss below d ss₁ s ss₂)
include hlayout hrun hlf h hd hat

/-- A definition of the edited text stands on the line that it stood on. -/
theorem at_image :
    At { b with source := src' } (editedAll mode.cut b.source.text plans [] ss) below (image d)
      (editedAll mode.cut b.source.text plans [] ss₁)
      (s.edited mode.cut b.source.text plans (flat ss₁))
      (editedAll mode.cut b.source.text plans (flat ss₁ ++ s.all) ss₂) :=
  hlayout.image hrun hlf h.text (h.startOf d hd) hat

omit hd hat in
/-- At its lines of code, the edited text is laid out like the text before. -/
theorem again (hcode : ∀ s ∈ ss, isCode s.line) :
    Layout { b with source := src' } mode (ds.map image)
      (editedAll mode.cut b.source.text plans [] ss) below where
  lines_eq := by
    rw [h.text]
    exact hlayout.lines_apply hrun hlf
  exists_at d' hd' := by
    obtain ⟨d, hd, rfl⟩ := List.mem_map.1 hd'
    obtain ⟨ss₁, s, ss₂, hat⟩ := hlayout.exists_at d hd
    exact ⟨_, _, _, hlayout.at_image hrun hlf h hd hat⟩
  cut_eq ts₁ t ts₂ hts := by
    refine mode.cut_append (isCode_of_getLast?_flat fun u hu => ?_) t.above
    exact isCode_of_mem_editedAll hcode (hts ▸ List.mem_append_left _ hu)

/-- The line moves like the definition on it, and keeps its indentation. -/
theorem lineOf_image :
    lineOf { b with source := src' } (image d) = moved b.source.text plans (lineOf b d) ∧
      src'.text.indentAt (lineOf { b with source := src' } (image d)) =
        b.source.text.indentAt (lineOf b d) := by
  have hstands := hat.stands
  have hstands' := (hlayout.at_image hrun hlf h hd hat).stands
  have hmoved := hlayout.moved_line hrun hat.eq (j := 0) (Or.inl (Nat.zero_le _))
  rw [Nat.add_zero, Nat.add_zero] at hmoved
  have hindent' := hstands'.indentAt_eq
  rw [line_edited] at hindent'
  rw [hstands.lineOf_eq, hstands'.lineOf_eq, hmoved, hstands.indentAt_eq]
  exact ⟨rfl, hindent'⟩

end Layout

/-! ## A single bare method -/

theorem reparsed_bareMethod {b : Builder} {plans : List Plan} {src' : Syntax.Source} (name : Text)
    (i j : Nat) (htext : src'.text = apply b.source.text plans)
    (hstart : src'.startOf (bareMethod name j).node =
      moved b.source.text plans (b.source.startOf (bareMethod name i).node)) :
    Reparsed b [bareMethod name i] plans src' fun _ => bareMethod name j where
  text := htext
  startOf d hd := by
    obtain rfl := List.mem_singleton.1 hd
    exact hstart
  startByte_le_iff d hd e he := by
    obtain rfl := List.mem_singleton.1 hd
    obtain rfl := List.mem_singleton.1 he
    exact iff_of_true (Nat.le_refl _) (Nat.le_refl _)
  alike d hd := by
    obtain rfl := List.mem_singleton.1 hd
    exact alike_bareMethod _ _ _ name i j

/-- The method `go` moves below its block. -/
theorem reparsed_go : Reparsed plainGo [bareMethod "go" 0] [insertGo] blockAboveGo
    fun _ => bareMethod "go" 71 := by
  refine reparsed_bareMethod "go" 0 71 ?_ ?_
  · rw [apply, ranges_singleton]
    rfl
  · rw [moved, ranges_singleton]
    rfl

end RubyDoc.Edit
