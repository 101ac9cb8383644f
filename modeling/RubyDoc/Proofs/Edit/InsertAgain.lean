import RubyDoc.Proofs.Edit.Again

/-!
# Inserting twice

Inserting puts comments directly above lines, and a comment once found above a line is still found
when comments are put in elsewhere.  So after inserting, every definition that would get a block has
a comment, and inserting again plans nothing (`insert_again`).  A definition may stand on any line
here, even on one that looks like a comment.
-/

namespace RubyDoc.Edit

open Text Comment Block Outline Signature Lookups Stanza

theorem cut_insert_nil : (Mode.insert.cut []).upper = [] ∧ (Mode.insert.cut []).lower = [] :=
  ⟨rfl, rfl⟩

/-- Without lines above, the new lines are all that stands above the line of an edited stanza. -/
theorem above_edited {text : Text} {plans : List Plan} {pre : List Text} {s : Stanza}
    (hs : s.above = []) : (s.edited Mode.insert.cut text plans pre).above =
      (replacement plans (s.spot Mode.insert.cut pre)).map (· ++ text.ending) := by
  rw [edited, withLines]
  split
  · rename_i hnil
    rw [hs, hnil]
  · rw [hs, cut_insert_nil.1, cut_insert_nil.2, List.nil_append, List.append_nil]

namespace Layout

variable {b : Builder} {ds : List Definition} {ss : List Stanza} {below : List Text}
  {plans : List Plan} {l l' : Lookups}

section Edited

variable (hlayout : Layout b .insert ds ss below)
  (hrun : PlanRun b .insert (inTextOrder ds) l plans l') (habove : ∀ s ∈ ss, s.above = [])
include hlayout hrun habove

theorem isComment_of_mem_above {s : Stanza} (hs : s ∈ ss) (pre : List Text) :
    ∀ line ∈ (s.edited Mode.insert.cut b.source.text plans pre).above, isComment line := by
  rw [above_edited (habove s hs)]
  intro line hline
  obtain ⟨m, hm, rfl⟩ := List.mem_map.1 hline
  exact isComment_append (hlayout.isComment_of_mem_replacement hrun hm) _

/-- A comment at the end of some stanzas is there after inserting as well. -/
theorem lastComment_editedAll {ts : List Stanza} (hts : ∀ s ∈ ts, s ∈ ss) (pre : List Text)
    (h : lastComment (flat ts) ≠ []) :
    lastComment (flat (editedAll Mode.insert.cut b.source.text plans pre ts)) ≠ [] := by
  induction ts using List.reverseRecOn with
  | nil => exact absurd rfl h
  | append_singleton ts s ih =>
      have hs := hts s (by simp)
      rw [flat_append, flat_cons, flat_nil, all, habove s hs, List.nil_append, List.append_nil] at h
      rw [editedAll_append, flat_append, editedAll, editedAll, flat_cons, flat_nil, List.append_nil,
        all, line_edited, ← List.append_assoc]
      -- Only a blank last line leaves the matter to the lines before it.
      by_cases hblank : s.line.isBlank
      · rw [lastComment_concat_of_blank hblank] at h ⊢
        refine lastComment_append_ne_nil (hlayout.isComment_of_mem_above hrun habove hs _)
          (Or.inr ?_)
        exact ih (fun t ht => hts t (List.mem_append_left _ ht)) h
      · by_cases hcomment : isComment s.line
        · exact lastComment_concat_of_comment hcomment _
        · have hcode : isCode s.line := by
            rw [isCode, Bool.eq_false_iff.2 hblank, Bool.eq_false_iff.2 hcomment]
            rfl
          exact absurd (lastComment_concat_of_isCode hcode _) h

/-- Above a definition there is a comment after inserting if there was one, or if something was
planned for the definition. -/
theorem lastComment_above {ss₁ : List Stanza} {s : Stanza} {ss₂ : List Stanza}
    (hss : ss = ss₁ ++ s :: ss₂)
    (h : lastComment (flat ss₁ ++ s.above) ≠ [] ∨
      replacement plans (s.spot Mode.insert.cut (flat ss₁)) ≠ []) :
    lastComment (flat (editedAll Mode.insert.cut b.source.text plans [] ss₁) ++
      (s.edited Mode.insert.cut b.source.text plans (flat ss₁)).above) ≠ [] := by
  have hs : s ∈ ss := by
    rw [hss]
    simp
  have hts : ∀ t ∈ ss₁, t ∈ ss := by
    intro t ht
    rw [hss]
    exact List.mem_append_left _ ht
  refine lastComment_append_ne_nil (hlayout.isComment_of_mem_above hrun habove hs _) ?_
  rcases h with h | h
  · rw [habove s hs, List.append_nil] at h
    exact Or.inr (hlayout.lastComment_editedAll hrun habove hts [] h)
  · rw [above_edited (habove s hs)]
    exact Or.inl (by simpa using h)

end Edited

end Layout

/-- A definition without a comment that nothing was planned for has an empty block. -/
theorem PlanRun.block_of_no_plan {b : Builder} {ds : List Definition} {plans : List Plan}
    {l l' : Lookups} (hrun : PlanRun b .insert (inTextOrder ds) l plans l') {d : Definition}
    (hd : d ∈ ds) (hallowed : b.allows d = .ok true) {ss : List Stanza}
    {below : List Text} (hlayout : Layout b .insert ds ss below) {ss₁ : List Stanza} {s : Stanza}
    {ss₂ : List Stanza} (hat : At b ss below d ss₁ s ss₂)
    (hcomment : lastComment (flat ss₁ ++ s.above) = [])
    (hnone : replacement plans (s.spot Mode.insert.cut (flat ss₁)) = []) :
    ∃ k, Extends ((b.block d s.indent).run k).2 l' ∧ ((b.block d s.indent).run k).1 = [] := by
  obtain ⟨k, -, hafter, hmem⟩ := hrun.planned (mem_inTextOrder.2 hd) hallowed
  have hplan := hat.stands.run_plan .insert k
  rw [rendered, if_pos hcomment] at hplan
  rw [hplan] at hafter hmem
  refine ⟨k, hafter.extends, ?_⟩
  by_contra hne
  obtain ⟨p, hp⟩ := Option.ne_none_iff_exists'.1
    (@Mode.planWith_ne_none .insert (flat ss₁ ++ s.above) s.indent _ hne)
  have hrange := hlayout.range_eq hat.eq hp
  refine groupLines_ne_nil (List.mem_filter.2 ⟨hmem p hp, decide_eq_true hrange⟩) ?_ hnone
  obtain ⟨hlines, rfl⟩ := Mode.planWith_eq_some hp
  exact hlines

/-- Above a definition with a block, wherever it stands by then, there is a comment after
inserting. -/
theorem PlanRun.inserted {b : Builder} {ds : List Definition} {plans : List Plan} {l l' : Lookups}
    (hrun : PlanRun b .insert (inTextOrder ds) l plans l') {d : Definition} (hd : d ∈ ds)
    (hallowed : b.allows d = .ok true) {ss : List Stanza} {below : List Text}
    (hlayout : Layout b .insert ds ss below) (habove : ∀ s ∈ ss, s.above = [])
    {ss₁ : List Stanza} {s : Stanza} {ss₂ : List Stanza} (hat : At b ss below d ss₁ s ss₂)
    {src' : Syntax.Source} {d' : Definition} (halike : Alike b.settings b.source d src' d')
    {k m : Lookups}
    (hextends : Extends ((Builder.block { b with source := src' } d' s.indent).run k).2 m)
    (hagree : Agree l' m)
    (hblock : ((Builder.block { b with source := src' } d' s.indent).run k).1 ≠ []) :
    lastComment (flat (editedAll Mode.insert.cut b.source.text plans [] ss₁) ++
      (s.edited Mode.insert.cut b.source.text plans (flat ss₁)).above) ≠ [] := by
  refine hlayout.lastComment_above hrun habove hat.eq ?_
  by_contra hneither
  rw [not_or, not_not, not_not] at hneither
  obtain ⟨k', hafter, hempty⟩ :=
    hrun.block_of_no_plan hd hallowed hlayout hat hneither.1 hneither.2
  have hsame := (Builder.block_concur halike s.indent).same k' k l' m hafter hextends hagree
  exact hblock (hsame.symm.trans hempty)

/-- **Inserting twice is inserting once.**  Every definition moves with its line.  A definition with
a block has a comment above it then, and planning again plans nothing, as long as the lookups agree
with those of the first time. -/
theorem insert_again {b : Builder} {ds : List Definition} {l l₁ : Lookups} {plans : List Plan}
    (hrun : (planAll b .insert ds).run.run l = (.ok plans, l₁))
    (hlf : ∀ p ∈ plans, ∀ line ∈ p.lines, Sym.lineFeed ∉ line) {src' : Syntax.Source}
    {image : Definition → Definition} (h : Reparsed b ds plans src' image) :
    (∀ d ∈ ds, lineOf { b with source := src' } (image d) = moved b.source.text plans (lineOf b d) ∧
      src'.text.indentAt (lineOf { b with source := src' } (image d)) =
        b.source.text.indentAt (lineOf b d)) ∧
    (∀ d ∈ ds, b.allows d = .ok true → ∀ k,
      Agree l₁ ((b.block d (b.source.text.indentAt (lineOf b d))).run k).2 →
      ((b.block d (b.source.text.indentAt (lineOf b d))).run k).1 ≠ [] →
      (runAbove? src'.text (lineOf { b with source := src' } (image d))).isSome) ∧
    ∀ m r m', (planAll { b with source := src' } .insert (ds.map image)).run.run m = (r, m') →
      Agree l₁ m' → r = .ok [] ∧ apply src'.text [] = apply b.source.text plans := by
  obtain ⟨ss, hlayout, habove⟩ := exists_layout_insert b ds
  have hplanned := planEach_eq_ok_iff.1 hrun
  refine ⟨fun d hd => ?_, fun d hd hallowed k hagree hblock => ?_, fun m r m' hagain hagree => ?_⟩
  · obtain ⟨ss₁, s, ss₂, hat⟩ := hlayout.exists_at d hd
    exact hlayout.lineOf_image hplanned hlf h hd hat
  · obtain ⟨ss₁, s, ss₂, hat⟩ := hlayout.exists_at d hd
    have hstands' := (hlayout.at_image hplanned hlf h hd hat).stands
    rw [hat.stands.lineOf_eq, hat.stands.indentAt_eq] at hagree hblock
    rw [hstands'.lineOf_eq]
    exact hstands'.isSome_runAbove?_iff.2 (hplanned.inserted hd hallowed hlayout habove hat
      (Alike.refl b.settings b.source d) (fun _ _ hf => hf) hagree hblock)
  · refine ⟨planAll_eq_nil hagain (hplanned.allows_image h) ?_, by rw [apply_nil, h.text]⟩
    intro d' hd' hallowed k hbefore hafter
    obtain ⟨d, hd, rfl⟩ := List.mem_map.1 hd'
    obtain ⟨ss₁, s, ss₂, hat⟩ := hlayout.exists_at d hd
    have hstands' := (hlayout.at_image hplanned hlf h hd hat).stands
    have hplan := hstands'.run_plan .insert k
    rw [line_edited] at hplan
    rw [hplan] at hafter ⊢
    by_cases hcomment : lastComment (flat (editedAll Mode.insert.cut b.source.text plans [] ss₁) ++
        (s.edited Mode.insert.cut b.source.text plans (flat ss₁)).above) = []
    -- Without a comment above it by then, a definition has no block.
    · rw [rendered, if_pos hcomment] at hafter ⊢
      rw [allows_eq (h.alike d hd)] at hallowed
      have hempty :
          ((Builder.block { b with source := src' } (image d) s.indent).run k).1 = [] := by
        by_contra hblock
        exact hplanned.inserted hd hallowed hlayout habove hat (h.alike d hd) hafter.extends hagree
          hblock hcomment
      show Mode.insert.planWith _ _
        ((Builder.block { b with source := src' } (image d) s.indent).run k).1 = none
      rw [hempty]
      rfl
    · rw [rendered, if_neg hcomment]
      rfl

/-- Inserting above a bare method leaves nothing for a second time. -/
theorem insert_again_go :
    (planAll plainGo .insert [bareMethod "go" 0]).run.run {} = (.ok [insertGo], {}) ∧
      ((planAll { plainGo with source := blockAboveGo } .insert
        [bareMethod "go" 71]).run.run {}).1 = .ok [] := by
  have hrun : (planAll plainGo .insert [bareMethod "go" 0]).run.run {} = (.ok [insertGo], {}) := by
    rw [planAll_singleton]
    rfl
  obtain ⟨-, -, hagain⟩ := insert_again hrun (by decide) reparsed_go
  exact ⟨hrun, (hagain {} _ _ rfl (agree_empty _)).1⟩

end RubyDoc.Edit
