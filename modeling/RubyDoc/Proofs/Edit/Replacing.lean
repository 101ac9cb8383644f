import RubyDoc.Proofs.Edit.Layout
import RubyDoc.Proofs.Edit.Renew

/-!
# Replacing above the lines of a text

Replacing renews the lines above a stanza with the blocks that the plans put there
(`Layout.above_replaced`).  Two runs over texts that are laid out alike put in the same blocks at
the same places if their definitions stand at the same places and get the same lines
(`TwinRuns.blocksAt_eq`).  What stands above the lines may differ between the two texts.
-/

namespace RubyDoc.Edit

open Text Comment Block Outline Signature Lookups Stanza

/-- The blocks that the plans put above the line of a stanza, with the lines `pre` above the
stanza. -/
def blocksAt (plans : List Plan) (pre : List Text) (s : Stanza) : List Text :=
  stackBlocks (plans.filter fun p => p.range = s.spot Mode.replace.cut pre)

theorem Mode.lower_replace (ls : List Text) : (Mode.replace.cut ls).lower = [] := by
  cases hdoc : documents (lastComment ls) with
  | true => exact (Mode.cut_replace_of_documents hdoc).2.2
  | false => exact (Mode.cut_replace_of_not_documents hdoc).2.2

theorem groupLines_of_kept {plans : List Plan} {kept : List Text} (hne : plans ≠ [])
    (h : ∀ p ∈ plans, p.joins = false ∧ p.kept = kept) :
    groupLines plans = stackBlocks plans ++ kept := by
  have hblocks : plans.filter (fun p => !p.joins) = plans :=
    List.filter_eq_self.2 fun p hp => by rw [(h p hp).1]; rfl
  have hjoined : plans.filter (fun p => p.joins) = [] :=
    List.filter_eq_nil_iff.2 fun p hp => by rw [(h p hp).1]; exact Bool.false_ne_true
  have hkept := kept_eq_of_forall hne fun p hp => (h p hp).2
  rw [groupLines, hblocks, hjoined, hkept]
  rfl

theorem stackBlocks_ne_nil {plans : List Plan} {p : Plan} (hp : p ∈ plans) (hlines : p.lines ≠ []) :
    stackBlocks plans ≠ [] := by
  obtain ⟨line, rest, hcons⟩ := List.exists_cons_of_ne_nil hlines
  exact List.ne_nil_of_mem (mem_stackBlocks_of_mem hp (hcons ▸ List.mem_cons_self))

theorem mem_blocksAt {plans : List Plan} {pre : List Text} {s : Stanza} {p : Plan} (hp : p ∈ plans)
    (hrange : p.range = s.spot Mode.replace.cut pre) {line : Text} (hline : line ∈ p.lines) :
    line ∈ blocksAt plans pre s :=
  mem_stackBlocks_of_mem (List.mem_filter.2 ⟨hp, decide_eq_true hrange⟩) hline

theorem exists_plan_of_blocksAt {plans : List Plan} {pre : List Text} {s : Stanza}
    (h : blocksAt plans pre s ≠ []) : ∃ p ∈ plans, p.range = s.spot Mode.replace.cut pre := by
  obtain ⟨line, hline⟩ := List.exists_mem_of_ne_nil _ h
  obtain ⟨p, hp, -⟩ := mem_stackBlocks hline
  obtain ⟨hp, hrange⟩ := List.mem_filter.1 hp
  exact ⟨p, hp, of_decide_eq_true hrange⟩

namespace Layout

variable {b : Builder} {ds : List Definition} {ss : List Stanza} {below : List Text}
  {plans : List Plan} {l l' : Lookups} (hlayout : Layout b .replace ds ss below)
  (hcode : ∀ s ∈ ss, isCode s.line) (hrun : PlanRun b .replace (inTextOrder ds) l plans l')
  {ss₁ : List Stanza} {s : Stanza} {ss₂ : List Stanza} (hss : ss = ss₁ ++ s :: ss₂)
include hlayout hcode hrun hss

/-- What the plans for the place above a stanza have in common. -/
theorem plan_fields {p : Plan} (hp : p ∈ plans)
    (hrange : p.range = s.spot Mode.replace.cut (flat ss₁)) :
    p.lines ≠ [] ∧ p.joins = false ∧ p.kept = Mode.replace.kept (lastComment s.above) := by
  obtain ⟨hlines, -, hjoins, hkept⟩ := hlayout.fields_of_range hrun hcode hss hp hrange
  exact ⟨hlines, hjoins, hkept⟩

/-- Replacing renews the lines above a stanza. -/
theorem above_replaced : (s.edited Mode.replace.cut b.source.text plans (flat ss₁)).above =
    renewed b.source.text.ending (blocksAt plans (flat ss₁) s) s.above := by
  have hfields : ∀ p ∈ plans.filter (fun p => p.range = s.spot Mode.replace.cut (flat ss₁)),
      p.lines ≠ [] ∧ p.joins = false ∧ p.kept = Mode.replace.kept (lastComment s.above) := by
    intro p hp
    obtain ⟨hp, hrange⟩ := List.mem_filter.1 hp
    exact hlayout.plan_fields hcode hrun hss hp (of_decide_eq_true hrange)
  rw [edited, withLines, renewed, replacement, blocksAt]
  by_cases hnone : plans.filter (fun p => p.range = s.spot Mode.replace.cut (flat ss₁)) = []
  · rw [hnone]
    rfl
  · obtain ⟨p, hp⟩ := List.exists_mem_of_ne_nil _ hnone
    have hblocks := stackBlocks_ne_nil hp (hfields p hp).1
    rw [groupLines_of_kept hnone fun p hp => (hfields p hp).2, if_neg (by simp [hblocks]),
      if_neg hblocks, Mode.lower_replace, List.append_nil]

end Layout

/-! ## The same place in two texts -/

/-- Do `s` and `s'` stand at the same place of two lists, below the stanzas `ss₁` and `ss₁'`? -/
structure Opposite (ss ss' ss₁ : List Stanza) (s : Stanza) (ss₁' : List Stanza) (s' : Stanza) :
    Prop where
  eq : ∃ ss₂, ss = ss₁ ++ s :: ss₂
  eq' : ∃ ss₂, ss' = ss₁' ++ s' :: ss₂
  length_eq : ss₁'.length = ss₁.length

theorem Opposite.symm {ss ss' ss₁ ss₁' : List Stanza} {s s' : Stanza}
    (h : Opposite ss ss' ss₁ s ss₁' s') : Opposite ss' ss ss₁' s' ss₁ s :=
  ⟨h.eq', h.eq, h.length_eq.symm⟩

theorem Opposite.unique {ss ss' ss₁ ss₁' ts₁' : List Stanza} {s s' t' : Stanza}
    (h : Opposite ss ss' ss₁ s ss₁' s') (h' : Opposite ss ss' ss₁ s ts₁' t') :
    ts₁' = ss₁' ∧ t' = s' := by
  obtain ⟨ss₂, hss⟩ := h.eq'
  obtain ⟨ts₂, hts⟩ := h'.eq'
  obtain ⟨hpre, hrest⟩ := List.append_inj (hts.symm.trans hss) (h'.length_eq.trans h.length_eq.symm)
  exact ⟨hpre, (List.cons.inj hrest).1⟩

/-- Ranges are those of one place in the first text exactly if they are in the second. -/
theorem Opposite.spot_eq_iff {cut : ∀ ls : List Text, Cut ls}
    {ss ss' ss₁ ss₁' ts₁ ts₁' : List Stanza} {s s' t t' : Stanza}
    (h : Opposite ss ss' ss₁ s ss₁' s') (h' : Opposite ss ss' ts₁ t ts₁' t') :
    t.spot cut (flat ts₁) = s.spot cut (flat ss₁) ↔
      t'.spot cut (flat ts₁') = s'.spot cut (flat ss₁') := by
  have hone : ∀ {us us' us₁ us₁' vs₁ vs₁' : List Stanza} {u u' v v' : Stanza},
      Opposite us us' us₁ u us₁' u' → Opposite us us' vs₁ v vs₁' v' →
        v.spot cut (flat vs₁) = u.spot cut (flat us₁) →
          v'.spot cut (flat vs₁') = u'.spot cut (flat us₁') := by
    intro us us' us₁ us₁' vs₁ vs₁' u u' v v' hu hv hspot
    obtain ⟨us₂, hus⟩ := hu.eq
    obtain ⟨vs₂, hvs⟩ := hv.eq
    obtain ⟨rfl, rfl, -⟩ := eq_of_spot_eq (hvs.symm.trans hus) hspot
    obtain ⟨rfl, rfl⟩ := hu.unique hv
    rfl
  exact ⟨hone h h', hone h.symm h'.symm⟩

theorem eq_take_append_drop {α : Type} {as : List α} {i : Nat} (hi : i < as.length) :
    as = as.take i ++ as[i] :: as.drop (i + 1) := by
  rw [← List.drop_eq_getElem_cons hi, List.take_append_drop]

theorem getElem_editedAll {cut : ∀ ls : List Text, Cut ls} {text : Text} {plans : List Plan}
    {ss : List Stanza} {i : Nat} (hi : i < (editedAll cut text plans [] ss).length)
    (hi' : i < ss.length) : (editedAll cut text plans [] ss)[i] =
      ss[i].edited cut text plans (flat (ss.take i)) := by
  have hedited := @editedAll_split cut text plans (ss.take i) ss[i] (ss.drop (i + 1))
  rw [← eq_take_append_drop hi'] at hedited
  have hlength : (editedAll cut text plans [] (ss.take i)).length = i := by
    rw [length_editedAll, List.length_take, Nat.min_eq_left hi'.le]
  simp only [hedited]
  rw [List.getElem_append_right hlength.le]
  simp only [hlength, Nat.sub_self, List.getElem_cons_zero]

/-- Two texts are edited to the same stanzas if they are at each place. -/
theorem editedAll_ext {cut : ∀ ls : List Text, Cut ls} {text text' : Text}
    {plans plans' : List Plan} {ss ss' : List Stanza} (hlength : ss'.length = ss.length)
    (h : ∀ ss₁ s ss₁' s', Opposite ss ss' ss₁ s ss₁' s' →
      s'.edited cut text' plans' (flat ss₁') = s.edited cut text plans (flat ss₁)) :
    editedAll cut text' plans' [] ss' = editedAll cut text plans [] ss := by
  refine List.ext_getElem ?_ fun i hi' hi => ?_
  · rw [length_editedAll, length_editedAll, hlength]
  · have hlt : i < ss.length := by rwa [length_editedAll] at hi
    have hlt' : i < ss'.length := by rwa [length_editedAll] at hi'
    rw [getElem_editedAll hi hlt, getElem_editedAll hi' hlt']
    refine h _ _ _ _ ⟨⟨_, eq_take_append_drop hlt⟩, ⟨_, eq_take_append_drop hlt'⟩, ?_⟩
    rw [List.length_take, List.length_take, Nat.min_eq_left hlt'.le, Nat.min_eq_left hlt.le]

/-! ## Two runs -/

/-- Plans of two runs that put in the same lines at the same place. -/
structure Twins (ss ss' : List Stanza) (p p' : Plan) : Prop where
  lines : p'.lines = p.lines
  indent : p'.indent = p.indent
  exists_place : ∃ ss₁ s ss₁' s', Opposite ss ss' ss₁ s ss₁' s' ∧
    p.range = s.spot Mode.replace.cut (flat ss₁) ∧ p'.range = s'.spot Mode.replace.cut (flat ss₁')

/-- Do both builders render the same lines for each definition, as far as `l'` and `m'` remember
what they look up? -/
def RenderAlike (b b' : Builder) (ds : List Definition) (image : Definition → Definition)
    (l' m' : Lookups) : Prop :=
  ∀ d ∈ ds, ∀ k k', let indent := b.source.text.indentAt (lineOf b d)
    Extends ((b.block d indent).run k).2 l' → Extends ((b'.block (image d) indent).run k').2 m' →
      ((b'.block (image d) indent).run k').1 = ((b.block d indent).run k).1

theorem renderAlike_of_alike {b : Builder} {ds : List Definition} {src' : Syntax.Source}
    {image : Definition → Definition} {l' m' : Lookups}
    (h : ∀ d ∈ ds, Alike b.settings b.source d src' (image d)) (hagree : Agree l' m') :
    RenderAlike b { b with source := src' } ds image l' m' :=
  fun d hd k k' hend hend' =>
    ((Builder.block_concur (h d hd) _).same k k' l' m' hend hend' hagree).symm

/-- The runs of replacing that end with the lookups `l'` and `m'` are for the same definitions:
`image` takes each to one at the same place, which the filters treat alike and which gets the same
lines. -/
structure TwinRuns (b b' : Builder) (ds : List Definition) (image : Definition → Definition)
    (ss ss' : List Stanza) (below below' : List Text) (l' m' : Lookups) : Prop where
  layout : Layout b .replace ds ss below
  layout' : Layout b' .replace (ds.map image) ss' below'
  inTextOrder_map : inTextOrder (ds.map image) = (inTextOrder ds).map image
  allows_eq : ∀ d ∈ ds, b'.allows (image d) = b.allows d
  exists_opposite : ∀ d ∈ ds, ∃ ss₁ s ss₂ ss₁' s' ss₂', At b ss below d ss₁ s ss₂ ∧
    At b' ss' below' (image d) ss₁' s' ss₂' ∧ ss₁'.length = ss₁.length ∧ s'.line = s.line
  renderAlike : RenderAlike b b' ds image l' m'

theorem stackBlocks_congr {ps ps' : List Plan}
    (h : List.Forall₂ (fun p p' => p'.lines = p.lines ∧ p'.indent = p.indent) ps ps') :
    stackBlocks ps' = stackBlocks ps := by
  cases h with
  | nil => rfl
  | cons hfirst hrest =>
      rw [stackBlocks, stackBlocks, hfirst.1]
      congr 1
      induction hrest with
      | nil => rfl
      | cons hp _ ih => rw [List.flatMap_cons, List.flatMap_cons, hp.1, hp.2, ih]

theorem exists_of_mem_right {α β : Type} {R : α → β → Prop} {as : List α} {bs : List β}
    (h : List.Forall₂ R as bs) {c : β} (hc : c ∈ bs) : ∃ a ∈ as, R a c := by
  induction h with
  | nil => cases hc
  | cons hfirst _ ih =>
      rcases List.mem_cons.1 hc with rfl | hc
      · exact ⟨_, List.mem_cons_self, hfirst⟩
      · obtain ⟨a, ha, hr⟩ := ih hc
        exact ⟨a, List.mem_cons_of_mem _ ha, hr⟩

namespace TwinRuns

variable {b b' : Builder} {ds : List Definition} {image : Definition → Definition}
  {ss ss' : List Stanza} {below below' : List Text} {l l' m m' : Lookups}
  {plans plans' : List Plan} (h : TwinRuns b b' ds image ss ss' below below' l' m')
  (hrun : PlanRun b .replace (inTextOrder ds) l plans l')
  (hrun' : PlanRun b' .replace (inTextOrder (ds.map image)) m plans' m')
include h hrun hrun'

/-- **The plans of the second run are those of the first**, at the same places. -/
theorem forall₂_twins : List.Forall₂ (Twins ss ss') plans plans' := by
  rw [h.inTextOrder_map] at hrun'
  refine hrun.forall₂ hrun' (fun d hd => h.allows_eq d (mem_inTextOrder.1 hd)) ?_
  intro d hd _ k k' hend hend'
  have hd := mem_inTextOrder.1 hd
  obtain ⟨ss₁, s, ss₂, ss₁', s', ss₂', hat, hat', hlength, hline⟩ := h.exists_opposite d hd
  have hplan := hat.stands.run_plan .replace k
  have hplan' := hat'.stands.run_plan .replace k'
  rw [hline] at hplan'
  rw [hplan] at hend ⊢
  rw [hplan'] at hend' ⊢
  have hindent : b.source.text.indentAt (lineOf b d) = s.indent := by
    rw [hat.stands.lineOf_eq, hat.stands.indentAt_eq]
    rfl
  have hsame := h.renderAlike d hd k k'
  rw [hindent] at hsame
  replace hsame := hsame hend hend'
  show List.Forall₂ _ (Mode.replace.planWith _ s.indent ((b.block d s.indent).run k).1).toList
    (Mode.replace.planWith _ s.indent ((b'.block (image d) s.indent).run k').1).toList
  -- Both runs render the same lines, so both have a plan or neither has.
  rw [hsame]
  generalize ((b.block d s.indent).run k).1 = lines
  by_cases hnil : lines = []
  · rw [hnil]
    exact .nil
  · obtain ⟨p, hp⟩ := Option.ne_none_iff_exists'.1
      (@Mode.planWith_ne_none .replace (flat ss₁ ++ s.above) s.indent _ hnil)
    obtain ⟨p', hp'⟩ := Option.ne_none_iff_exists'.1
      (@Mode.planWith_ne_none .replace (flat ss₁' ++ s'.above) s.indent _ hnil)
    have hrange := h.layout.range_eq hat.eq hp
    have hrange' := h.layout'.range_eq hat'.eq hp'
    rw [hp, hp']
    obtain ⟨-, rfl⟩ := Mode.planWith_eq_some hp
    obtain ⟨-, rfl⟩ := Mode.planWith_eq_some hp'
    exact .cons ⟨rfl, rfl, ss₁, s, ss₁', s', ⟨⟨ss₂, hat.eq⟩, ⟨ss₂', hat'.eq⟩, hlength⟩, hrange,
      hrange'⟩ .nil

/-- **Both runs put in the same blocks at the same place.** -/
theorem blocksAt_eq {ss₁ ss₁' : List Stanza} {s s' : Stanza}
    (hopposite : Opposite ss ss' ss₁ s ss₁' s') :
    blocksAt plans' (flat ss₁') s' = blocksAt plans (flat ss₁) s := by
  refine stackBlocks_congr ?_
  refine (List.rel_filter (fun p p' htwin => ?_) (h.forall₂_twins hrun hrun')).imp
    fun p p' htwin => ⟨htwin.lines, htwin.indent⟩
  -- The plans are for one place, which is that of `s` for both or for neither.
  obtain ⟨ts₁, t, ts₁', t', hplace, hrange, hrange'⟩ := htwin.exists_place
  simp only [decide_eq_true_iff, hrange, hrange']
  exact hopposite.spot_eq_iff hplace

theorem lineFeed_notMem_again (hlf : ∀ p ∈ plans, ∀ line ∈ p.lines, Sym.lineFeed ∉ line) :
    ∀ p' ∈ plans', ∀ line ∈ p'.lines, Sym.lineFeed ∉ line := by
  intro p' hp' line hline
  obtain ⟨p, hp, htwin⟩ := exists_of_mem_right (h.forall₂_twins hrun hrun') hp'
  exact hlf p hp line (htwin.lines ▸ hline)

end TwinRuns

end RubyDoc.Edit
