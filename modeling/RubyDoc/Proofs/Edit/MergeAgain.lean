import RubyDoc.Proofs.Block.Documented
import RubyDoc.Proofs.Comment.Marker
import RubyDoc.Proofs.Edit.Again

/-!
# Merging twice

After merging, the comment above a definition holds every line that was planned for it, and an
earlier documentation comment as well.  So the comment documents the definition, or its block is
empty, and merging again plans nothing (`merge_again`).  What the lookups find the second time does
not matter, as long as it can be read.
-/

namespace RubyDoc.Edit

open Text Comment Block Outline Signature Lookups Stanza

namespace Stanza

/-- When nothing is removed, putting in no lines is no special case. -/
theorem above_withLines_of_removed_nil {cut : ∀ ls : List Text, Cut ls} {s : Stanza}
    (h : (cut s.above).removed = []) (new : List Text) :
    (s.withLines cut new).above = (cut s.above).upper ++ new ++ (cut s.above).lower := by
  rw [withLines]
  split
  · rename_i hnil
    conv_lhs => rw [(cut s.above).eq]
    rw [h, hnil]
  · rfl

/-- After merging, the comment above a stanza holds the new lines, and the old ones of a
documentation comment. -/
theorem mem_lastComment_withLines (pre : List Text) {s : Stanza} {new : List Text}
    (hnew : ∀ line ∈ new, isComment line) {line : Text}
    (h : line ∈ new ∨ documents (lastComment s.above) ∧ line ∈ lastComment s.above) :
    line ∈ lastComment (pre ++ (s.withLines Mode.merge.cut new).above) := by
  have hsplit := split_self s.above
  cases hdoc : documents (lastComment s.above) with
  | true =>
      obtain ⟨hupper, hremoved, hlower⟩ := Mode.cut_merge_of_documents hdoc
      have hmem : line ∈ lastComment s.above ++ new := by
        rcases h with h | h
        · exact List.mem_append_right _ h
        · exact List.mem_append_left _ h.2
      rw [above_withLines_of_removed_nil hremoved, hupper, hlower,
        List.append_assoc (beforeComment _), ← List.append_assoc, ← List.append_assoc]
      refine mem_lastComment_of_mem_run _ (fun l hl => ?_) hsplit.isBlank_of_mem hmem
      exact (List.mem_append.1 hl).elim (hsplit.isComment_of_mem l) (hnew l)
  | false =>
      have hmem : line ∈ new := h.resolve_right fun h => Bool.false_ne_true (hdoc.symm.trans h.1)
      by_cases hgap : gapBelow s.above = []
      · obtain ⟨hupper, hremoved, hlower⟩ := Mode.cut_merge_of_touching hdoc hgap
        rw [above_withLines_of_removed_nil hremoved, hupper, hlower, List.append_assoc,
          ← List.append_assoc pre, ← List.append_nil (_ ++ _ ++ _)]
        refine mem_lastComment_of_mem_run _ (fun l hl => ?_)
          (fun l hl => absurd hl List.not_mem_nil) (List.mem_append_left _ hmem)
        exact (List.mem_append.1 hl).elim (hnew l) (hsplit.isComment_of_mem l)
      · obtain ⟨hupper, hremoved, hlower⟩ := Mode.cut_merge_of_apart hdoc hgap
        rw [above_withLines_of_removed_nil hremoved, hupper, hlower, ← List.append_assoc,
          ← List.append_assoc]
        exact mem_lastComment_of_mem_run _ hnew (fun l hl => absurd hl List.not_mem_nil) hmem

end Stanza

/-! ## Findings -/

section Found

variable {b : Builder} {d : Definition} {raw : List Text} {indent : Text} {k l' : Lookups}

/-- A block is one for what is remembered at the end. -/
theorem drafts_at_end (h : Drafts b d (Lookups.find b.provider (keyOf d) k).1 raw)
    (hend : Extends ((b.block d indent).run k).2 l') :
    Drafts b d (Lookups.find b.provider (keyOf d) l').1 raw := by
  cases h with
  | ofAttribute hrole readType writeType => exact .ofAttribute hrole readType writeType
  | ofMethod hrole hlines =>
      have hfound := (Builder.reaches_block_of_method hrole indent k).extends.trans hend
      rw [find_eq_at_end _ _ hfound] at hlines
      exact .ofMethod hrole hlines

theorem supplements_at_end {e : Existing} {existing : List Text}
    (h : Supplements b d (Lookups.find b.provider (keyOf d) k).1 e raw)
    (hend : Extends ((b.additions d existing indent).run k).2 l') :
    Supplements b d (Lookups.find b.provider (keyOf d) l').1 e raw := by
  cases h with
  | known hrole hknown => exact .known hrole hknown
  | ofAttribute hrole hnew readType writeType => exact .ofAttribute hrole hnew readType writeType
  | ofMethod hrole hmissing =>
      have hfound :=
        (Builder.reaches_additions_of_method hrole existing indent k).extends.trans hend
      rw [find_eq_at_end _ _ hfound] at hmissing
      exact .ofMethod hrole hmissing

end Found

/-! ## Once merged -/

namespace Layout

variable {b : Builder} {ds : List Definition} {ss : List Stanza} {below : List Text}
  {plans : List Plan} {l l' : Lookups} (hlayout : Layout b .merge ds ss below)
  (hcode : ∀ s ∈ ss, isCode s.line) (hrun : PlanRun b .merge (inTextOrder ds) l plans l')
  {ss₁ : List Stanza} {s : Stanza} {ss₂ : List Stanza} (hss : ss = ss₁ ++ s :: ss₂)
include hlayout hcode hrun hss

/-- What the comment above a line of code holds after merging. -/
theorem mem_merged_comment {line : Text}
    (h : line ∈
        (replacement plans (s.spot Mode.merge.cut (flat ss₁))).map (· ++ b.source.text.ending) ∨
      documents (lastComment (flat ss₁ ++ s.above)) ∧ line ∈ lastComment (flat ss₁ ++ s.above)) :
    line ∈ lastComment (flat (editedAll Mode.merge.cut b.source.text plans [] ss₁) ++
      (s.edited Mode.merge.cut b.source.text plans (flat ss₁)).above) := by
  obtain ⟨-, hcomment, -⟩ := (split_above hss hcode).eq_parts
  rw [hcomment] at h
  refine mem_lastComment_withLines _ (fun m hm => ?_) h
  obtain ⟨new, hnew, rfl⟩ := List.mem_map.1 hm
  exact isComment_append (hlayout.isComment_of_mem_replacement hrun hnew) _

/-- The lines that were planned for a definition are in the comment above it. -/
theorem written {indent : Text} {lines raw : List Text} (hraw : lines = raw.map (indent ++ ·))
    (hplanned : ∀ p,
      Mode.merge.planWith (flat ss₁ ++ s.above) s.indent lines = some p → p ∈ plans) :
    Written ((lastComment (flat (editedAll Mode.merge.cut b.source.text plans [] ss₁) ++
      (s.edited Mode.merge.cut b.source.text plans (flat ss₁)).above)).map withoutReturn)
      indent raw := by
  intro line hline hspeaks
  have hmem : indent ++ line ∈ lines := by
    rw [hraw]
    exact List.mem_map_of_mem hline
  obtain ⟨p, hp⟩ := Option.ne_none_iff_exists'.1
    (@Mode.planWith_ne_none .merge (flat ss₁ ++ s.above) s.indent _ (List.ne_nil_of_mem hmem))
  obtain ⟨-, hlines⟩ := Mode.planWith_eq_some hp
  have hgroup : indent ++ line ∈ replacement plans (s.spot Mode.merge.cut (flat ss₁)) :=
    mem_groupLines_of_mem
      (List.mem_filter.2 ⟨hplanned p hp, decide_eq_true (hlayout.range_eq hss hp)⟩)
      (by rw [hlines]; exact hmem) hspeaks
  refine ⟨_, List.mem_map_of_mem
    (hlayout.mem_merged_comment hcode hrun hss (Or.inl (List.mem_map_of_mem hgroup))), ?_⟩
  exact withoutReturn_append_end (ending_eq _) _

/-- A whole block with a marker line makes the comment documentation. -/
theorem documents_of_marked {p : Plan} (hp : p ∈ plans)
    (hrange : p.range = s.spot Mode.merge.cut (flat ss₁)) (hjoins : p.joins = false) {line : Text}
    (hline : line ∈ p.lines) (hmark : isMarker line) :
    documents (lastComment (flat (editedAll Mode.merge.cut b.source.text plans [] ss₁) ++
      (s.edited Mode.merge.cut b.source.text plans (flat ss₁)).above)) := by
  have hgroup : line ∈ replacement plans (s.spot Mode.merge.cut (flat ss₁)) :=
    mem_groupLines_of_not_joins (List.mem_filter.2 ⟨hp, decide_eq_true hrange⟩) hjoins hline
  refine documents_of_mem
    (hlayout.mem_merged_comment hcode hrun hss (Or.inl (List.mem_map_of_mem hgroup))) ?_
  rcases withoutReturn_append_end (ending_eq b.source.text) line with h | h
  · rwa [h]
  · rw [h]
    exact isMarker_withoutReturn hmark

end Layout

/-- Above every definition that the filters allow there is a comment that documents it, or else
it has an empty block. -/
theorem PlanRun.merged {b : Builder} {ds : List Definition} {plans : List Plan} {l l' : Lookups}
    (hrun : PlanRun b .merge (inTextOrder ds) l plans l')
    (hp : ∀ p, b.provider = some p → p.Readable) (hl : l.Readable)
    (hmarker : ∀ p ∈ plans, p.joins = false → ∃ line ∈ p.lines, isMarker line)
    {ss : List Stanza} {below : List Text} (hlayout : Layout b .merge ds ss below)
    (hcode : ∀ s ∈ ss, isCode s.line) {d : Definition} (hd : d ∈ ds)
    (hallowed : b.allows d = .ok true)
    (hreads : ReadsBack b d (Lookups.find b.provider (keyOf d) l').1) {ss₁ : List Stanza}
    {s : Stanza} {ss₂ : List Stanza} (hat : At b ss below d ss₁ s ss₂) :
    let comment := lastComment (flat (editedAll Mode.merge.cut b.source.text plans [] ss₁) ++
      (s.edited Mode.merge.cut b.source.text plans (flat ss₁)).above)
    Documented b d (.ofLines (comment.map withoutReturn)) ∧
      (documents comment = false → ∃ f raw, Drafts b d f raw ∧ Builder.dropBlankEnd raw = []) := by
  intro comment
  have hindent := s.isIndentSym_of_mem_indent
  obtain ⟨k, hbefore, hafter, hmem⟩ := hrun.planned (mem_inTextOrder.2 hd) hallowed
  have hk := hbefore.readable hp hl
  have hplan := hat.stands.run_plan .merge k
  rw [hplan] at hafter hmem
  cases hdoc : documents (lastComment (flat ss₁ ++ s.above)) with
  | true =>
      have hold : ∀ line ∈ lastComment (flat ss₁ ++ s.above), line ∈ comment := fun line hline =>
        hlayout.mem_merged_comment hcode hrun hat.eq (Or.inr ⟨hdoc, hline⟩)
      rw [rendered, if_pos hdoc] at hafter hmem
      obtain ⟨raw, hraw, hsupplements⟩ := Builder.supplements_additions (d := d) hp hk
        ((lastComment (flat ss₁ ++ s.above)).map withoutReturn) s.indent
      refine ⟨documented_of_supplements hindent hreads
        (supplements_at_end hsupplements hafter.extends) (fun line hline => ?_)
        (hlayout.written hcode hrun hat.eq hraw hmem), fun hnot => ?_⟩
      · obtain ⟨m, hm, rfl⟩ := List.mem_map.1 hline
        exact List.mem_map_of_mem (hold m hm)
      · rw [documents_mono hold hdoc] at hnot
        cases hnot
  | false =>
      rw [rendered, hdoc, if_neg Bool.false_ne_true] at hafter hmem
      have hend : Extends ((b.block d s.indent).run k).2 l' := hafter.extends
      have hdrafts := drafts_at_end (Builder.drafts_rawBlock (d := d) hp hk) hend
      have hwritten := hlayout.written hcode hrun hat.eq rfl hmem
      refine ⟨documented_of_drafts hindent hreads hdrafts (hwritten.of_dropBlankEnd hindent),
        fun hnot => ⟨_, _, hdrafts, ?_⟩⟩
      -- A block that is not empty would have put a marker line into the comment.
      by_contra hne
      obtain ⟨p, hplanned⟩ := Option.ne_none_iff_exists'.1
        (@Mode.planWith_ne_none .merge (flat ss₁ ++ s.above) s.indent _
          (show ((b.block d s.indent).run k).1 ≠ [] from mt List.map_eq_nil_iff.1 hne))
      have hjoins : p.joins = false := by
        rw [(Mode.planWith_eq_some hplanned).2]
        exact hdoc
      obtain ⟨line, hline, hmark⟩ := hmarker p (hmem p hplanned) hjoins
      have hdocuments := hlayout.documents_of_marked hcode hrun hat.eq (hmem p hplanned)
        (hlayout.range_eq hat.eq hplanned) hjoins hline hmark
      exact Bool.false_ne_true (hnot.symm.trans hdocuments)

/-- **Merging twice is merging once.**  Whatever the lookups say the second time, planning again
plans nothing. -/
theorem merge_again {b : Builder} {ds : List Definition} {l l₁ : Lookups} {plans : List Plan}
    (hds : ∀ d ∈ ds, isCode (lineWith b d)) (hp : ∀ p, b.provider = some p → p.Readable)
    (hl : l.Readable) (hrun : (planAll b .merge ds).run.run l = (.ok plans, l₁))
    (hlf : ∀ p ∈ plans, ∀ line ∈ p.lines, Sym.lineFeed ∉ line)
    (hreads : ∀ d ∈ ds, b.allows d = .ok true →
      ReadsBack b d (Lookups.find b.provider (keyOf d) l₁).1)
    (hmarker : ∀ p ∈ plans, p.joins = false → ∃ line ∈ p.lines, isMarker line)
    {src' : Syntax.Source} {image : Definition → Definition} (h : Reparsed b ds plans src' image)
    {m m' : Lookups} (hm : m.Readable) {r : Except Failure (List Plan)}
    (hagain : (planAll { b with source := src' } .merge (ds.map image)).run.run m = (r, m')) :
    r = .ok [] ∧ apply src'.text [] = apply b.source.text plans := by
  obtain ⟨ss, below, hlayout, hss, -⟩ := exists_layout b .merge hds
  have hcode : ∀ s ∈ ss, isCode s.line := fun s hs => (hss s hs).1
  have hplanned := planEach_eq_ok_iff.1 hrun
  refine ⟨planAll_eq_nil hagain (hplanned.allows_image h) ?_, by rw [apply_nil, h.text]⟩
  intro d' hd' hallowed k hbefore _
  obtain ⟨d, hd, rfl⟩ := List.mem_map.1 hd'
  have halike := h.alike d hd
  rw [allows_eq halike] at hallowed
  have hk : k.Readable := hbefore.readable hp hm
  obtain ⟨ss₁, s, ss₂, hat⟩ := hlayout.exists_at d hd
  obtain ⟨hdocumented, hempty⟩ := hplanned.merged hp hl hmarker hlayout hcode hd hallowed
    (hreads d hd hallowed) hat
  have hplan := (hlayout.at_image hplanned hlf h hd hat).stands.run_plan .merge k
  rw [line_edited] at hplan
  rw [hplan]
  -- Either way no lines are rendered.
  have hnone : ((rendered { b with source := src' } .merge (image d) (lastComment
      (flat (editedAll Mode.merge.cut b.source.text plans [] ss₁) ++
        (s.edited Mode.merge.cut b.source.text plans (flat ss₁)).above))
      (s.line.takeWhile isIndentSym)).run k).1 = [] := by
    rw [rendered]
    split
    · obtain ⟨raw, hraw, hsupplements⟩ := @Builder.supplements_additions
        { b with source := src' } (image d) k hp hk _ (s.line.takeWhile isIndentSym)
      rw [hraw, hdocumented.supplements_eq_nil (hsupplements.of_alike halike)]
      rfl
    · rename_i hnot
      obtain ⟨f, raw, hdrafts, hnil⟩ := hempty (Bool.eq_false_iff.2 hnot)
      have hblock := @Builder.drafts_rawBlock { b with source := src' } (image d) k hp hk
      have hnil' := dropBlankEnd_eq_nil_of_drafts hdrafts hnil (hblock.of_alike halike)
      exact congrArg (List.map _) hnil'
  show Mode.merge.planWith _ _ _ = none
  rw [hnone]
  rfl

/-- The method `go` with a comment that says nothing of the result. -/
def notedGo : Builder :=
  plainBuilder "# @note Go.\ndef go\nend\n"

/-- The plan that adds the result to the comment. -/
def completeGo : Plan where
  start := 12
  stop := 12
  lines := ["#", "# @return [Object]"]
  indent := []
  joins := true

/-- The source with the whole comment above the method, which starts at the byte 33. -/
def completedGo : Syntax.Source :=
  .ofText "# @note Go.\n#\n# @return [Object]\ndef go\nend\n"

theorem readsBack_bareMethod (b : Builder) (name : Text) (i : Nat) (f : Finding) :
    ReadsBack b (bareMethod name i) f := by
  have hparams : inferredParameters b.settings b.source (bareMethod name i) = [] := rfl
  have hraised : Analysis.raisedTypes b.source (bareMethod name i).node = [] := rfl
  refine ⟨fun p hp => ?_, fun p hp => ?_, fun access hrole => ?_, fun error herror => ?_⟩
  · rw [hparams] at hp
    cases hp
  · rw [hparams] at hp
    cases hp
  · cases hrole
  · rw [hraised] at herror
    cases herror

theorem reparsed_completedGo : Reparsed notedGo [bareMethod "go" 12] [completeGo] completedGo
    fun _ => bareMethod "go" 33 := by
  refine reparsed_bareMethod "go" 12 33 ?_ ?_
  · rw [apply, ranges_singleton]
    rfl
  · rw [moved, ranges_singleton]
    rfl

/-- Once the result is in the comment, nothing is left to merge. -/
theorem merge_again_go :
    (planAll notedGo .merge [bareMethod "go" 12]).run.run {} = (.ok [completeGo], {}) ∧
      ((planAll { notedGo with source := completedGo } .merge
        [bareMethod "go" 33]).run.run {}).1 = .ok [] := by
  have hrun : (planAll notedGo .merge [bareMethod "go" 12]).run.run {} =
      (.ok [completeGo], {}) := by
    rw [planAll_singleton]
    rfl
  have hcode : ∀ d ∈ [bareMethod "go" 12], isCode (lineWith notedGo d) := by
    intro d hd
    obtain rfl := List.mem_singleton.1 hd
    rfl
  have hprovider : ∀ p, notedGo.provider = some p → p.Readable := by
    intro p hp
    cases hp
  have hreadable : Lookups.Readable {} := by
    intro key f hf
    cases hf
  have hreads : ∀ d ∈ [bareMethod "go" 12], notedGo.allows d = .ok true →
      ReadsBack notedGo d (Lookups.find notedGo.provider (keyOf d) {}).1 := by
    intro d hd _
    obtain rfl := List.mem_singleton.1 hd
    exact readsBack_bareMethod notedGo "go" 12 _
  have hmarker : ∀ p ∈ [completeGo], p.joins = false → ∃ line ∈ p.lines, isMarker line := by
    intro p hp hjoins
    obtain rfl := List.mem_singleton.1 hp
    cases hjoins
  exact ⟨hrun, (merge_again hcode hprovider hreadable hrun (by decide) hreads hmarker
    reparsed_completedGo hreadable rfl).1⟩

end RubyDoc.Edit
