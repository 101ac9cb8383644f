import RubyDoc.Proofs.Edit.Again
import RubyDoc.Proofs.Edit.Ending
import RubyDoc.Proofs.Edit.Replacing

/-!
# Replacing twice

Two runs of replacing, one after the other, are runs over texts that are laid out alike
(`Layout.twinRuns`).  So each stanza is renewed twice with the same blocks, and the text stays as it
is exactly if every stanza with blocks does (`replace_again_iff`).
-/

namespace RubyDoc.Edit

open Text Comment Block Outline Signature Lookups Stanza

theorem isDirective_separator {indent : Text} (hindent : ∀ c ∈ indent, isIndentSym c) :
    isDirective (indent ++ [Sym.char '#']) = false := by
  have hsign : afterSign? (indent ++ [Sym.char '#']) = some [] := by
    rw [afterSign?, trimLeft_append, isBlank_indent hindent, if_pos rfl]
    rfl
  rw [isDirective, content?, hsign]
  rfl

theorem Layout.ends_above {b : Builder} {mode : Mode} {ds : List Definition} {ss : List Stanza}
    {below : List Text} (hlayout : Layout b mode ds ss below) {ss₁ : List Stanza} {s : Stanza}
    {ss₂ : List Stanza} (hss : ss = ss₁ ++ s :: ss₂) : Ends b.source.text.ending s.above where
  eq := ending_eq _
  no_return hnil line hline := by
    refine (ending_eq_nil_iff _).1 hnil line ?_
    rw [hlayout.lines_eq, hss]
    exact mem_dropLast_of_mem_above ss₁ ss₂ below hline

namespace Layout

variable {b : Builder} {ds : List Definition} {ss : List Stanza} {below : List Text}
  {plans : List Plan} {l l' : Lookups} (hlayout : Layout b .replace ds ss below)
  (hcode : ∀ s ∈ ss, isCode s.line) (hrun : PlanRun b .replace (inTextOrder ds) l plans l')
  {ss₁ : List Stanza} {s : Stanza} {ss₂ : List Stanza} (hss : ss = ss₁ ++ s :: ss₂)
include hlayout hcode hrun hss

/-- The blocks above a stanza can be told from the comments there. -/
theorem blocks_of_ne_nil (hdirective : ∀ p ∈ plans, ∀ line ∈ p.lines, isDirective line = false)
    (hmarker : ∀ p ∈ plans, ∃ line ∈ p.lines, isMarker line)
    (hne : blocksAt plans (flat ss₁) s ≠ []) : Blocks (blocksAt plans (flat ss₁) s) := by
  have hindent := s.isIndentSym_of_mem_indent
  have hline : ∀ line ∈ blocksAt plans (flat ss₁) s, ∃ p ∈ plans,
      p.range = s.spot Mode.replace.cut (flat ss₁) ∧
        (line ∈ p.lines ∨ line = s.indent ++ [Sym.char '#']) := by
    intro line hline
    obtain ⟨p, hp, hline⟩ := mem_stackBlocks hline
    obtain ⟨hp, hrange⟩ := List.mem_filter.1 hp
    have hrange := of_decide_eq_true hrange
    refine ⟨p, hp, hrange, hline.imp_right fun hseparator => ?_⟩
    rw [hseparator, Plan.separator, (hlayout.fields_of_range hrun hcode hss hp hrange).2.1]
  refine ⟨fun line hmem => ?_, fun line hmem => ?_, ?_⟩
  · obtain ⟨p, hp, hrange, hsource | rfl⟩ := hline line hmem
    · have hjoins := (hlayout.plan_fields hcode hrun hss hp hrange).2.1
      refine hlayout.isComment_of_mem_replacement hrun (r := p.range) ?_
      exact mem_groupLines_of_not_joins (List.mem_filter.2 ⟨hp, by simp⟩) hjoins hsource
    · exact isComment_indented hindent []
  · obtain ⟨p, hp, -, hsource | rfl⟩ := hline line hmem
    · exact hdirective p hp line hsource
    · exact isDirective_separator hindent
  · obtain ⟨line, hmem⟩ := List.exists_mem_of_ne_nil _ hne
    obtain ⟨p, hp, hrange, -⟩ := hline line hmem
    obtain ⟨marker, hmem, hmark⟩ := hmarker p hp
    exact ⟨marker, mem_blocksAt hp hrange hmem, hmark⟩

/-- Whether the comment above the place of a plan is settled can be seen in the text. -/
theorem settled_iff_run {p : Plan} (hp : p ∈ plans)
    (hrange : p.range = s.spot Mode.replace.cut (flat ss₁)) :
    Settled s.above ↔ ∀ run, runAbove? b.source.text p.stop = some run → run.stop = p.stop →
      run.isDocumentation ∨ run.afterDirectives = [] := by
  obtain ⟨d, -, k, hat, -, hplan⟩ := hlayout.plan_at_of_range hrun hss hp hrange
  obtain ⟨-, hcomment, hgap⟩ := (split_above hss hcode).eq_parts
  have hwhole := (Mode.replace.cut (flat ss₁ ++ s.above)).eq
  rw [Mode.lower_replace, List.append_nil] at hwhole
  have hstop : p.stop = (closed (flat ss₁ ++ s.above)).length := by
    rw [(Mode.planWith_eq_some hplan).2]
    exact congrArg (fun ls => (closed ls).length) hwhole.symm
  rw [hstop, hat.stands.runAbove?_eq, Settled, ← hcomment, ← hgap]
  constructor
  · intro hsettled run hrun htouches
    rw [Run.isDocumentation_of_ofLines? hrun, Run.afterDirectives_eq_nil_iff hrun]
    exact hsettled ((Run.stop_eq_iff hrun).1 htouches)
  · intro hruns hgap
    by_cases hnil : lastComment (flat ss₁ ++ s.above) = []
    · rw [hnil]
      exact Or.inr rfl
    · have hsome := mt
        (@Run.ofLines?_eq_none_iff (closed (beforeComment (flat ss₁ ++ s.above))).length _).1 hnil
      obtain ⟨run, hrun⟩ := Option.ne_none_iff_exists'.1 hsome
      have hsaid := hruns run hrun ((Run.stop_eq_iff hrun).2 hgap)
      rwa [Run.isDocumentation_of_ofLines? hrun, Run.afterDirectives_eq_nil_iff hrun] at hsaid

end Layout

/-! ## How new lines end -/

namespace Layout

variable {b : Builder} {ds : List Definition} {ss : List Stanza} {below : List Text}
  {plans : List Plan} {l l' : Lookups} (hlayout : Layout b .replace ds ss below)
  (hcode : ∀ s ∈ ss, isCode s.line) (hrun : PlanRun b .replace (inTextOrder ds) l plans l')
include hlayout hcode hrun

/-- A plan brings blocks to the place above some stanza. -/
theorem exists_place {p : Plan} (hp : p ∈ plans) : ∃ ss₁ s ss₂, ss = ss₁ ++ s :: ss₂ ∧
    p.range = s.spot Mode.replace.cut (flat ss₁) ∧ blocksAt plans (flat ss₁) s ≠ [] := by
  obtain ⟨d, -, ss₁, s, ss₂, k, hat, -, hplan⟩ := hlayout.exists_plan_at hrun hp
  have hrange := hlayout.range_eq hat.eq hplan
  obtain ⟨line, hline⟩ :=
    List.exists_mem_of_ne_nil _ (hlayout.plan_fields hcode hrun hat.eq hp hrange).1
  exact ⟨ss₁, s, ss₂, hat.eq, hrange, List.ne_nil_of_mem (mem_blocksAt hp hrange hline)⟩

/-- A line of a plan comes to stand above a line of the text. -/
theorem mem_dropLast_of_mem_plan (hlf : ∀ p ∈ plans, ∀ line ∈ p.lines, Sym.lineFeed ∉ line)
    {p : Plan} (hp : p ∈ plans) {line : Text} (hline : line ∈ p.lines) :
    line ++ b.source.text.ending ∈ (apply b.source.text plans).lines.dropLast := by
  obtain ⟨ss₁, s, ss₂, hss, hrange, -⟩ := hlayout.exists_place hcode hrun hp
  have hjoins := (hlayout.plan_fields hcode hrun hss hp hrange).2.1
  have hmem : line ∈ replacement plans (s.spot Mode.replace.cut (flat ss₁)) :=
    mem_groupLines_of_not_joins (List.mem_filter.2 ⟨hp, decide_eq_true hrange⟩) hjoins hline
  rw [hlayout.lines_apply hrun hlf, hss, editedAll_split]
  exact mem_dropLast_of_mem_above _ _ _ (mem_above_edited_of_mem b.source.text hmem)

/-- After replacing, new lines end as before unless a plan brings the first pair of carriage return
and line feed. -/
theorem ending_replaced (hlf : ∀ p ∈ plans, ∀ line ∈ p.lines, Sym.lineFeed ∉ line)
    (hne : plans ≠ []) :
    (apply b.source.text plans).ending = b.source.text.ending ↔
      b.source.text.contains "\r\n" ∨
        ∀ p ∈ plans, ∀ line ∈ p.lines, line.getLast? ≠ some Sym.carriageReturn := by
  have hclosed : ∀ p ∈ plans, ∀ line ∈ p.lines,
      line ++ b.source.text.ending ∈ (apply b.source.text plans).lines.dropLast :=
    fun p hp line hline => hlayout.mem_dropLast_of_mem_plan hcode hrun hlf hp hline
  by_cases hcontains : b.source.text.contains "\r\n"
  · have hending : b.source.text.ending = [Sym.carriageReturn] := if_pos hcontains
    refine iff_of_true ?_ (Or.inl hcontains)
    rw [hending] at hclosed ⊢
    -- Any new line shows the pair.
    obtain ⟨p, hp⟩ := List.exists_mem_of_ne_nil plans hne
    obtain ⟨ss₁, s, ss₂, hss, hrange, -⟩ := hlayout.exists_place hcode hrun hp
    obtain ⟨line, hline⟩ :=
      List.exists_mem_of_ne_nil _ (hlayout.plan_fields hcode hrun hss hp hrange).1
    refine (ending_eq _).resolve_left fun hnil => ?_
    exact (ending_eq_nil_iff _).1 hnil _ (hclosed p hp line hline) (by simp)
  · have hending : b.source.text.ending = [] := if_neg hcontains
    rw [hending, ending_eq_nil_iff, or_iff_right hcontains]
    rw [hending] at hclosed
    constructor
    · intro hnone p hp line hline
      have hlast := hnone _ (hclosed p hp line hline)
      rwa [List.append_nil] at hlast
    · intro hnone line hline
      rcases hlayout.mem_dropLast_lines_apply hrun hlf hline with hold | ⟨r, new, hnew, rfl⟩
      · exact (ending_eq_nil_iff _).1 hending line hold
      · rw [hending, List.append_nil]
        exact hlayout.no_return_of_mem_replacement hrun hending hnone hnew

end Layout

/-! ## The second run -/

/-- Lists whose parts are no longer than those of another list are that list only part by part. -/
theorem append_cons_eq_iff_of_le {α : Type} {xs xs' ys ys' : List α} {a : α}
    (hx : xs'.length ≤ xs.length) (hy : ys'.length ≤ ys.length) :
    xs' ++ a :: ys' = xs ++ a :: ys ↔ xs' = xs ∧ ys' = ys := by
  constructor
  · intro heq
    have hlength := congrArg List.length heq
    simp only [List.length_append, List.length_cons] at hlength
    obtain ⟨hxs, hrest⟩ := List.append_inj heq (by omega)
    exact ⟨hxs, (List.cons.inj hrest).2⟩
  · rintro ⟨rfl, rfl⟩
    rfl

theorem forall_split_cons {α : Type} {P : List α → α → Prop} {a : α} {as : List α} :
    (∀ as₁ c as₂, a :: as = as₁ ++ c :: as₂ → P as₁ c) ↔
      P [] a ∧ ∀ as₁ c as₂, as = as₁ ++ c :: as₂ → P (a :: as₁) c := by
  constructor
  · intro h
    exact ⟨h [] a as rfl, fun as₁ c as₂ has => h (a :: as₁) c as₂ (congrArg _ has)⟩
  · rintro ⟨hfirst, hrest⟩ as₁ c as₂ has
    cases as₁ with
    | nil =>
        obtain ⟨rfl, -⟩ := List.cons.inj has
        exact hfirst
    | cons e as₁ =>
        obtain ⟨rfl, htail⟩ := List.cons.inj has
        exact hrest as₁ c as₂ htail

namespace Layout

variable {b : Builder} {ds : List Definition} {ss : List Stanza} {below : List Text}
  {plans : List Plan} {l l' : Lookups} (hlayout : Layout b .replace ds ss below)
  (hcode : ∀ s ∈ ss, isCode s.line) (hrun : PlanRun b .replace (inTextOrder ds) l plans l')
  (hlf : ∀ p ∈ plans, ∀ line ∈ p.lines, Sym.lineFeed ∉ line) {src' : Syntax.Source}
  {image : Definition → Definition} (h : Reparsed b ds plans src' image) {m m' : Lookups}
  {plans' : List Plan}
  (hagain : PlanRun { b with source := src' } .replace (inTextOrder (ds.map image)) m plans' m')
  (hagree : Agree l' m')
include hlayout hcode hrun hlf h hagain hagree

omit hagain in
/-- The second run is one of replacing the same definitions in a text laid out alike. -/
theorem twinRuns : TwinRuns b { b with source := src' } ds image ss
    (editedAll Mode.replace.cut b.source.text plans [] ss) below below l' m' where
  layout := hlayout
  layout' := hlayout.again hrun hlf h hcode
  inTextOrder_map := inTextOrder_map h.startByte_le_iff
  allows_eq d hd := allows_eq (h.alike d hd)
  exists_opposite d hd := by
    obtain ⟨ss₁, s, ss₂, hat⟩ := hlayout.exists_at d hd
    exact ⟨ss₁, s, ss₂, _, _, _, hat, hlayout.at_image hrun hlf h hd hat,
      length_editedAll .., line_edited ..⟩
  renderAlike := renderAlike_of_alike h.alike hagree

/-- The second run renders the same blocks above every stanza. -/
theorem blocksAt_again {ss₁ : List Stanza} {s : Stanza} {ss₂ : List Stanza}
    (hss : ss = ss₁ ++ s :: ss₂) :
    blocksAt plans' (flat (editedAll Mode.replace.cut b.source.text plans [] ss₁))
        (s.edited Mode.replace.cut b.source.text plans (flat ss₁)) =
      blocksAt plans (flat ss₁) s := by
  have hsplit := @editedAll_split Mode.replace.cut b.source.text plans ss₁ s ss₂
  rw [← hss] at hsplit
  exact (hlayout.twinRuns hcode hrun hlf h hagree).blocksAt_eq hrun hagain
    ⟨⟨ss₂, hss⟩, ⟨_, hsplit⟩, length_editedAll ..⟩

/-- The lines above a stanza after both runs. -/
theorem above_replaced_again {ss₁ : List Stanza} {s : Stanza} {ss₂ : List Stanza}
    (hss : ss = ss₁ ++ s :: ss₂) :
    ((s.edited Mode.replace.cut b.source.text plans (flat ss₁)).edited Mode.replace.cut src'.text
        plans' (flat (editedAll Mode.replace.cut b.source.text plans [] ss₁))).above =
      renewed src'.text.ending (blocksAt plans (flat ss₁) s)
        (renewed b.source.text.ending (blocksAt plans (flat ss₁) s) s.above) := by
  have hlayout' := hlayout.again hrun hlf h hcode
  have hsplit := @editedAll_split Mode.replace.cut b.source.text plans ss₁ s ss₂
  rw [← hss] at hsplit
  have hcode' : ∀ t ∈ editedAll Mode.replace.cut b.source.text plans [] ss, isCode t.line :=
    fun t ht => isCode_of_mem_editedAll hcode ht
  have habove := hlayout'.above_replaced hcode' hagain hsplit
  rw [hlayout.blocksAt_again hcode hrun hlf h hagain hagree hss,
    hlayout.above_replaced hcode hrun hss] at habove
  exact habove

section Texts

variable (hdirective : ∀ p ∈ plans, ∀ line ∈ p.lines, isDirective line = false)
  (hmarker : ∀ p ∈ plans, ∃ line ∈ p.lines, isMarker line)
include hdirective hmarker

/-- The second run shortens some stanzas, and leaves the others alone. -/
theorem flat_again {ss₀ ts : List Stanza} (hss : ss = ss₀ ++ ts) :
    (flat (editedAll Mode.replace.cut src'.text plans'
        (flat (editedAll Mode.replace.cut b.source.text plans [] ss₀))
        (editedAll Mode.replace.cut b.source.text plans (flat ss₀) ts))).length ≤
      (flat (editedAll Mode.replace.cut b.source.text plans (flat ss₀) ts)).length ∧
    (flat (editedAll Mode.replace.cut src'.text plans'
        (flat (editedAll Mode.replace.cut b.source.text plans [] ss₀))
        (editedAll Mode.replace.cut b.source.text plans (flat ss₀) ts)) =
      flat (editedAll Mode.replace.cut b.source.text plans (flat ss₀) ts) ↔
        ∀ ts₁ s ts₂, ts = ts₁ ++ s :: ts₂ → blocksAt plans (flat (ss₀ ++ ts₁)) s ≠ [] →
          Settled s.above ∧ src'.text.ending = b.source.text.ending) := by
  induction ts generalizing ss₀ with
  | nil => exact ⟨Nat.le_refl _, iff_of_true rfl fun ts₁ s ts₂ h => by simp at h⟩
  | cons s ts ih =>
      have hnext : ss = (ss₀ ++ [s]) ++ ts := by
        rw [hss, List.append_assoc]
        rfl
      obtain ⟨hle, hiff⟩ := ih hnext
      obtain ⟨hhere, hsame⟩ := renewed_again src'.text.ending
        (fun hne => hlayout.blocks_of_ne_nil hcode hrun hss hdirective hmarker hne)
        (hlayout.ends_above hss)
      rw [← hlayout.above_replaced_again hcode hrun hlf h hagain hagree hss,
        ← hlayout.above_replaced hcode hrun hss] at hhere hsame
      simp only [editedAll_append, List.nil_append, editedAll, flat_append, flat_cons, flat_nil,
        List.append_nil] at hle hiff
      simp only [editedAll, flat_cons, all, line_edited, List.append_assoc,
        List.singleton_append] at hle hiff ⊢
      refine ⟨?_, ?_⟩
      · simp only [List.length_append, List.length_cons]
        omega
      -- No part gets longer, so the whole stays the same only if each part does.
      · rw [append_cons_eq_iff_of_le hhere hle, hsame, hiff, forall_split_cons]
        simp only [List.append_nil, flat_append, flat_cons, all, List.append_assoc,
          List.singleton_append]

/-- The second run leaves the text alone exactly if it leaves every stanza alone. -/
theorem apply_again_eq_iff : apply src'.text plans' = src'.text ↔
    ∀ ss₁ s ss₂, ss = ss₁ ++ s :: ss₂ → blocksAt plans (flat ss₁) s ≠ [] →
      Settled s.above ∧ src'.text.ending = b.source.text.ending := by
  have hlayout' := hlayout.again hrun hlf h hcode
  have hlf' := (hlayout.twinRuns hcode hrun hlf h hagree).lineFeed_notMem_again hrun hagain hlf
  have hflat := (hlayout.flat_again hcode hrun hlf h hagain hagree hdirective hmarker
    (show ss = [] ++ ss from rfl)).2
  simp only [editedAll, flat_nil, List.nil_append] at hflat
  rw [← hflat]
  constructor
  · intro heq
    have hlines := congrArg Text.lines heq
    rw [hlayout'.lines_apply hagain hlf'] at hlines
    exact List.append_cancel_right (hlines.trans hlayout'.lines_eq)
  · intro heq
    have hlines := hlayout'.apply_eq hagain
    rw [heq] at hlines
    refine hlines.trans ?_
    rw [← hlayout'.lines_eq]
    exact ofLines_lines _

end Texts

end Layout

/-- **When replacing twice is replacing once.**  Every definition moves with its line, and the
lookups agree with those of the first time.  The second time changes nothing exactly if every
comment that touches a replaced place is documentation or has nothing but directives, and no plan
brings the first pair of carriage return and line feed into the text. -/
theorem replace_again_iff {b : Builder} {ds : List Definition} {l l₁ : Lookups} {plans : List Plan}
    (hds : ∀ d ∈ ds, isCode (lineWith b d))
    (hrun : (planAll b .replace ds).run.run l = (.ok plans, l₁))
    (hlf : ∀ p ∈ plans, ∀ line ∈ p.lines, Sym.lineFeed ∉ line)
    (hdirective : ∀ p ∈ plans, ∀ line ∈ p.lines, isDirective line = false)
    (hmarker : ∀ p ∈ plans, ∃ line ∈ p.lines, isMarker line) {src' : Syntax.Source}
    {image : Definition → Definition} (h : Reparsed b ds plans src' image) {m m' : Lookups}
    {r : Except Failure (List Plan)}
    (hagain : (planAll { b with source := src' } .replace (ds.map image)).run.run m = (r, m'))
    (hagree : Agree l₁ m') :
    ∃ plans', r = .ok plans' ∧ (apply src'.text plans' = apply b.source.text plans ↔
      (∀ p ∈ plans, ∀ run, runAbove? b.source.text p.stop = some run → run.stop = p.stop →
        run.isDocumentation ∨ run.afterDirectives = []) ∧
      (b.source.text.contains "\r\n" ∨
        ∀ p ∈ plans, ∀ line ∈ p.lines, line.getLast? ≠ some Sym.carriageReturn)) := by
  obtain ⟨ss, below, hlayout, hss, -⟩ := exists_layout b .replace hds
  have hcode : ∀ s ∈ ss, isCode s.line := fun s hs => (hss s hs).1
  have hplanned := planEach_eq_ok_iff.1 hrun
  obtain ⟨plans', m'', hplanned'⟩ := @PlanRun.exists_of_allows { b with source := src' } .replace
    (inTextOrder (ds.map image)) (fun d hd => hplanned.allows_image h d (mem_inTextOrder.1 hd)) m
  rw [planAll, planEach_eq_ok_iff.2 hplanned', Prod.mk.injEq] at hagain
  obtain ⟨rfl, rfl⟩ := hagain
  refine ⟨plans', rfl, ?_⟩
  rw [← h.text, hlayout.apply_again_eq_iff hcode hplanned hlf h hplanned' hagree hdirective hmarker]
  constructor
  · -- A plan has a place, and what is steady everywhere is so there.
    intro hsteady
    have hplace : ∀ p ∈ plans, ∃ ss₁ s ss₂, ss = ss₁ ++ s :: ss₂ ∧
        p.range = s.spot Mode.replace.cut (flat ss₁) ∧
          Settled s.above ∧ src'.text.ending = b.source.text.ending := by
      intro p hp
      obtain ⟨ss₁, s, ss₂, hss, hrange, hne⟩ := hlayout.exists_place hcode hplanned hp
      exact ⟨ss₁, s, ss₂, hss, hrange, hsteady ss₁ s ss₂ hss hne⟩
    refine ⟨fun p hp => ?_, ?_⟩
    · obtain ⟨ss₁, s, ss₂, hss, hrange, hsettled, -⟩ := hplace p hp
      exact (hlayout.settled_iff_run hcode hplanned hss hp hrange).1 hsettled
    · -- Without plans no line ending comes in.
      by_cases hnil : plans = []
      · rw [hnil]
        exact Or.inr fun p hp => absurd hp List.not_mem_nil
      · obtain ⟨p, hp⟩ := List.exists_mem_of_ne_nil plans hnil
        obtain ⟨ss₁, s, ss₂, -, -, -, hending⟩ := hplace p hp
        rw [h.text] at hending
        exact (hlayout.ending_replaced hcode hplanned hlf hnil).1 hending
  · -- A place with blocks belongs to a plan.
    rintro ⟨hruns, hends⟩ ss₁ s ss₂ hss hne
    obtain ⟨p, hp, hrange⟩ := exists_plan_of_blocksAt hne
    refine ⟨(hlayout.settled_iff_run hcode hplanned hss hp hrange).2 (hruns p hp), ?_⟩
    rw [h.text]
    exact (hlayout.ending_replaced hcode hplanned hlf (List.ne_nil_of_mem hp)).2 hends

/-- Replacing above a bare method twice is replacing once. -/
theorem replace_again_go :
    (planAll plainGo .replace [bareMethod "go" 0]).run.run {} = (.ok [insertGo], {}) ∧
      ∃ plans', ((planAll { plainGo with source := blockAboveGo } .replace
        [bareMethod "go" 71]).run.run {}).1 = .ok plans' ∧
          apply blockAboveGo.text plans' = apply plainGo.source.text [insertGo] := by
  have hrun : (planAll plainGo .replace [bareMethod "go" 0]).run.run {} = (.ok [insertGo], {}) := by
    rw [planAll_singleton]
    rfl
  have hcode : ∀ d ∈ [bareMethod "go" 0], isCode (lineWith plainGo d) := by
    intro d hd
    obtain rfl := List.mem_singleton.1 hd
    rfl
  have hnothing : runAbove? plainGo.source.text 0 = none := rfl
  obtain ⟨plans', hplans', hiff⟩ := replace_again_iff hcode hrun (by decide) (by decide) (by decide)
    reparsed_go rfl (agree_empty _)
  refine ⟨hrun, plans', hplans', hiff.2 ⟨fun p hp run habove => ?_, Or.inr (by decide)⟩⟩
  obtain rfl := List.mem_singleton.1 hp
  rw [show insertGo.stop = 0 from rfl, hnothing] at habove
  cases habove

/-! ## A comment that is lost -/

/-- The method `go` with a comment that is no documentation; blocks have nothing but tags. -/
def licensedGo : Builder :=
  { plainBuilder "# Licensed.\ndef go\nend\n" with
    settings := { emit := { header := false, description := false } } }

/-- The plan that puts the block below the comment. -/
def tagGo : Plan where
  start := 12
  stop := 12
  lines := ["# @return [Object]"]
  indent := []

/-- The source with the block between the comment and the method, which starts at the byte 31. -/
def licensedTagGo : Syntax.Source :=
  .ofText "# Licensed.\n# @return [Object]\ndef go\nend\n"

/-- The plan that puts the block in the place of the comment and the block. -/
def tagAgainGo : Plan where
  start := 0
  stop := 31
  lines := ["# @return [Object]"]
  indent := []

theorem reparsed_licensedTagGo : Reparsed licensedGo [bareMethod "go" 12] [tagGo] licensedTagGo
    fun _ => bareMethod "go" 31 := by
  refine reparsed_bareMethod "go" 12 31 ?_ ?_
  · rw [apply, ranges_singleton]
    rfl
  · rw [moved, ranges_singleton]
    rfl

/-- **A comment that the first run keeps is lost in the second.**  The block of the first run
touches it, and the two make one documentation comment. -/
theorem replace_again_loses_comment :
    ((∀ d ∈ [bareMethod "go" 12], isCode (lineWith licensedGo d)) ∧
      (planAll licensedGo .replace [bareMethod "go" 12]).run.run {} = (.ok [tagGo], {}) ∧
      (∀ line ∈ tagGo.lines, Sym.lineFeed ∉ line ∧ isDirective line = false) ∧
      (∃ line ∈ tagGo.lines, isMarker line) ∧
      Reparsed licensedGo [bareMethod "go" 12] [tagGo] licensedTagGo
        (fun _ => bareMethod "go" 31) ∧
      (planAll { licensedGo with source := licensedTagGo } .replace
        [bareMethod "go" 31]).run.run {} = (.ok [tagAgainGo], {})) ∧
    Text.ofString "# Licensed." ∈ (apply licensedGo.source.text [tagGo]).lines ∧
    Text.ofString "# Licensed." ∉ (apply licensedTagGo.text [tagAgainGo]).lines ∧
    apply licensedTagGo.text [tagAgainGo] ≠ apply licensedGo.source.text [tagGo] := by
  have honce : apply licensedGo.source.text [tagGo] = licensedTagGo.text :=
    reparsed_licensedTagGo.text.symm
  have htwice : apply licensedTagGo.text [tagAgainGo] = "# @return [Object]\ndef go\nend\n" := by
    rw [apply, ranges_singleton]
    rfl
  have hkept : Text.ofString "# Licensed." ∈ licensedTagGo.text.lines := by decide
  have hlost : Text.ofString "# Licensed." ∉ Text.lines "# @return [Object]\ndef go\nend\n" := by
    decide
  rw [honce, htwice]
  refine ⟨⟨fun d hd => ?_, ?_, by decide, by decide, reparsed_licensedTagGo, ?_⟩, hkept, hlost,
    fun heq => hlost (heq ▸ hkept)⟩
  · obtain rfl := List.mem_singleton.1 hd
    rfl
  · rw [planAll_singleton]
    rfl
  · rw [planAll_singleton]
    rfl

end RubyDoc.Edit
