import RubyDoc.Proofs.Edit.Ranges
import RubyDoc.Proofs.Edit.Replacing

/-!
# Replaced documentation is forgotten

Of a documentation that is replaced, the directives are left and nothing else.  Two texts that
differ in no more than such a documentation and the blank lines after it become the same text
(`replace_forgets`), though everything below stands at other offsets in the one than in the other.
That the definitions in the two texts are the same and get the same lines is assumed here, as is
that some definition gets lines at all; otherwise the documentation stays as it is.
-/

namespace RubyDoc.Edit

open Text Comment Block Outline Signature Lookups Stanza

/-- The text has documentation above the line of code `line`: a comment that begins with the
directives `lead`, and blank lines after it. -/
structure HasDocumentation (t : Text) (upper lead rest gap : List Text) (line : Text)
    (below : List Text) : Prop where
  lines_eq : t.lines = upper ++ (lead ++ rest) ++ gap ++ line :: below
  upper_not_comment : ∀ l, upper.getLast? = some l → isComment l = false
  isComment_of_mem : ∀ l ∈ lead ++ rest, isComment l
  isBlank_of_mem : ∀ l ∈ gap, l.isBlank
  isDirective_of_mem : ∀ l ∈ lead, isDirective l.withoutReturn
  head_not_directive : ∀ l, rest.head? = some l → isDirective l.withoutReturn = false
  exists_marker : ∃ l ∈ rest, isMarker l.withoutReturn
  isCode_line : isCode line

/-- Where an offset comes to lie when a line that started at `bol` starts at `bol'`, and what stands
above stays. -/
def shifted (bol bol' k : Nat) : Nat :=
  if k < bol then k else k - bol + bol'

/-- Are the definitions in another source those of the builder's, up to the shift of a line? -/
structure Shifted (b : Builder) (src' : Syntax.Source) (ds : List Definition)
    (image : Definition → Definition) (bol bol' : Nat) : Prop where
  startOf : ∀ d ∈ ds, src'.startOf (image d).node = shifted bol bol' (b.source.startOf d.node)
  startByte_le_iff : ∀ d ∈ ds, ∀ e ∈ ds,
    (image d).node.startByte ≤ (image e).node.startByte ↔ d.node.startByte ≤ e.node.startByte
  allows_eq : ∀ d ∈ ds, b.allows (image d) = b.allows d

/-! ## The stanza with the documentation -/

namespace HasDocumentation

variable {t : Text} {upper lead rest gap : List Text} {line : Text} {below : List Text}
  (h : HasDocumentation t upper lead rest gap line below)
include h

theorem parts_eq : leadingDirectives (lead ++ rest) = lead ∧ body (lead ++ rest) = rest := by
  obtain ⟨hleading, hbody⟩ := @leadingDirectives_append lead rest h.head_not_directive
  rw [hleading, hbody]
  refine ⟨List.takeWhile_eq_self_iff.2 h.isDirective_of_mem, ?_⟩
  rw [body, List.dropWhile_eq_nil_iff.2 h.isDirective_of_mem, List.nil_append]

theorem documents_eq : documents (lead ++ rest) := by
  rw [documents, h.parts_eq.2, List.any_eq_true]
  exact h.exists_marker

/-- The documentation is the comment above the line, wherever the lines above are cut off. -/
theorem split {pre u : List Text} (hu : upper = pre ++ u) :
    Split (u ++ (lead ++ rest) ++ gap) u (lead ++ rest) gap where
  eq := rfl
  isBlank_of_mem := h.isBlank_of_mem
  isComment_of_mem := h.isComment_of_mem
  upper_not_comment l hl := by
    refine h.upper_not_comment l ?_
    rw [hu, List.getLast?_append, hl]
    rfl
  upper_not_blank hnil := by
    obtain ⟨l, hl, -⟩ := h.exists_marker
    rw [(List.append_eq_nil_iff.1 hnil).2] at hl
    cases hl

theorem cut_eq {pre u : List Text} (hu : upper = pre ++ u) :
    (Mode.replace.cut (u ++ (lead ++ rest) ++ gap)).upper = u ++ lead ∧
      (Mode.replace.cut (u ++ (lead ++ rest) ++ gap)).removed = rest ++ gap ∧
      Mode.replace.kept (lastComment (u ++ (lead ++ rest) ++ gap)) = directivesOf rest := by
  obtain ⟨hbefore, hcomment, hgap⟩ := (h.split hu).eq_parts
  have hdoc : documents (lastComment (u ++ (lead ++ rest) ++ gap)) := by
    rw [hcomment]
    exact h.documents_eq
  obtain ⟨hupper, hremoved, -⟩ := Mode.cut_replace_of_documents hdoc
  rw [hbefore, hcomment, h.parts_eq.1] at hupper
  rw [hcomment, hgap, h.parts_eq.2] at hremoved
  refine ⟨hupper, hremoved, ?_⟩
  rw [Mode.kept, if_pos hdoc, innerDirectives_eq, hcomment, h.parts_eq.2]

/-- Of the documentation, the directives are left. -/
theorem renewed_eq {pre u : List Text} (hu : upper = pre ++ u) (e : Text) {blocks : List Text}
    (hne : blocks ≠ []) : renewed e blocks (u ++ (lead ++ rest) ++ gap) =
      u ++ lead ++ (blocks ++ directivesOf rest).map (· ++ e) := by
  obtain ⟨hupper, -, hkept⟩ := h.cut_eq hu
  rw [renewed, if_neg hne, hupper, hkept]

section Stanzas

variable {us ws : List Stanza} {u low : List Text}

theorem lines_stanzas (hupper : upper = flat us ++ u) (hbelow : below = flat ws ++ low) :
    t.lines = flat (us ++ ⟨u ++ (lead ++ rest) ++ gap, line⟩ :: ws) ++ low := by
  rw [h.lines_eq, hupper, hbelow]
  simp [all]

theorem isCode_stanzas (hus : ∀ s ∈ us, isCode s.line ∧ ∀ l ∈ s.above, isCode l = false)
    (hu : ∀ l ∈ u, isCode l = false)
    (hws : ∀ s ∈ ws, isCode s.line ∧ ∀ l ∈ s.above, isCode l = false) :
    ∀ s ∈ us ++ ⟨u ++ (lead ++ rest) ++ gap, line⟩ :: ws,
      isCode s.line ∧ ∀ l ∈ s.above, isCode l = false := by
  have habove : ∀ l ∈ u ++ (lead ++ rest) ++ gap, isCode l = false := by
    intro l hl
    rcases List.mem_append.1 hl with hl | hl
    · rcases List.mem_append.1 hl with hl | hl
      · exact hu l hl
      · rw [isCode, h.isComment_of_mem l hl, Bool.not_true, Bool.and_false]
    · rw [isCode, h.isBlank_of_mem l hl, Bool.not_true, Bool.false_and]
  intro s hs
  rcases List.mem_append.1 hs with hs | hs
  · exact hus s hs
  · rcases List.mem_cons.1 hs with rfl | hs
    · exact ⟨h.isCode_line, habove⟩
    · exact hws s hs

end Stanzas

end HasDocumentation

/-! ## The same places in both texts -/

section Places

variable {us ws ss₁ : List Stanza} {t t' s : Stanza}

/-- Lists of stanzas that differ in one: at every other place there is the same stanza. -/
theorem Opposite.eq_or {ss₁' : List Stanza} {s' : Stanza}
    (h : Opposite (us ++ t :: ws) (us ++ t' :: ws) ss₁ s ss₁' s') :
    (ss₁ = us ∧ s = t ∧ ss₁' = us ∧ s' = t') ∨ s' = s := by
  obtain ⟨ss₂, hss⟩ := h.eq
  rcases append_cons_cases hss with ⟨rfl, rfl, rfl⟩ | ⟨more, rfl, rfl⟩ | ⟨more, rfl, rfl⟩
  · obtain ⟨rfl, rfl⟩ := h.unique ⟨⟨_, rfl⟩, ⟨_, rfl⟩, rfl⟩
    exact Or.inl ⟨rfl, rfl, rfl, rfl⟩
  · have hbelow : Opposite (us ++ t :: (more ++ s :: ss₂)) (us ++ t' :: (more ++ s :: ss₂))
        (us ++ t :: more) s (us ++ t' :: more) s :=
      ⟨⟨ss₂, hss⟩, ⟨ss₂, by simp⟩, by simp⟩
    exact Or.inr (h.unique hbelow).2.symm
  · have habove : Opposite (ss₁ ++ s :: more ++ t :: ws) (ss₁ ++ s :: more ++ t' :: ws)
        ss₁ s ss₁ s :=
      ⟨⟨_, hss⟩, ⟨more ++ t' :: ws, by simp⟩, rfl⟩
    exact Or.inr (h.unique habove).2.symm

theorem length_closed_split (us : List Stanza) (t : Stanza) (more : List Stanza)
    (ls : List Text) : (closed (flat (us ++ t :: more) ++ ls)).length =
      (closed (flat us ++ t.above)).length + t.line.length + 1 +
        (closed (flat more ++ ls)).length := by
  simp only [flat_append, flat_cons, all, closed_append, closed_cons, closed_nil,
    List.length_append, List.length_cons, List.length_nil]
  omega

theorem Stanza.eq_of_parts {s t : Stanza} (habove : s.above = t.above) (hline : s.line = t.line) :
    s = t := by
  cases s
  cases t
  rw [Stanza.mk.injEq]
  exact ⟨habove, hline⟩

/-- Stanzas of one list whose lines start at the same offset are the same. -/
theorem eq_of_start_eq {ts₁ ss₂ ts₂ : List Stanza} (hlist : ss₁ ++ s :: ss₂ = ts₁ ++ t :: ts₂)
    (hstart : (closed (flat ss₁ ++ s.above)).length = (closed (flat ts₁ ++ t.above)).length) :
    ss₁ = ts₁ ∧ s = t := by
  rcases append_cons_cases hlist with ⟨rfl, rfl, -⟩ | ⟨more, rfl, -⟩ | ⟨more, rfl, -⟩
  · exact ⟨rfl, rfl⟩
  · have hbehind := length_closed_split ss₁ s more t.above
    omega
  · have hbehind := length_closed_split ts₁ t more s.above
    omega

/-- A definition stands at the same place in the text with another stanza `t'`, if it moves with the
line of that stanza. -/
theorem At.exists_opposite {b b' : Builder} {d d' : Definition} {below : List Text}
    {ss₂ : List Stanza} (hat : At b (us ++ t :: ws) below d ss₁ s ss₂) (hline : t'.line = t.line)
    (hlines : b'.source.text.lines = flat (us ++ t' :: ws) ++ below)
    (hstart : b'.source.startOf d'.node =
      shifted (closed (flat us ++ t.above)).length (closed (flat us ++ t'.above)).length
        (b.source.startOf d.node)) :
    ∃ ss₁' s' ss₂', At b' (us ++ t' :: ws) below d' ss₁' s' ss₂' ∧ ss₁'.length = ss₁.length ∧
      s'.line = s.line := by
  obtain ⟨hlow, hhigh⟩ := hat.stands.liesIn
  rw [shifted] at hstart
  rcases append_cons_cases hat.eq with ⟨rfl, rfl, rfl⟩ | ⟨more, rfl, rfl⟩ | ⟨more, rfl, rfl⟩
  · -- The definition stands on the line of the stanza itself.
    rw [if_neg (Nat.not_lt.2 hlow)] at hstart
    refine ⟨us, t', ws, ⟨rfl, ⟨?_, ?_, hhigh.imp_left fun hhigh => ?_⟩⟩, rfl, hline⟩
    · rw [hlines]
      simp [all]
    · omega
    · rw [hline]
      omega
  · -- It stands further down, where all is shifted by the difference of the stanzas.
    have hbefore := length_closed_split us t more s.above
    have hafter := length_closed_split us t' more s.above
    rw [hline] at hafter
    rw [if_neg (by omega)] at hstart
    refine ⟨us ++ t' :: more, s, ss₂, ⟨by simp, ⟨?_, ?_, hhigh.imp_left fun hhigh => ?_⟩⟩,
      by simp, rfl⟩
    · rw [hlines]
      simp [all]
    · omega
    · omega
  · -- The line of the definition is not the last one, so the definition starts in it.
    have hinside := hhigh.resolve_right (by simp [all])
    have habove := length_closed_split ss₁ s more t.above
    rw [if_pos (by omega)] at hstart
    refine ⟨ss₁, s, more ++ t' :: ws, ⟨by simp, ⟨?_, ?_, Or.inl ?_⟩⟩, rfl, rfl⟩
    · rw [hlines]
      simp [all]
    · omega
    · omega

end Places

/-! ## Replacing in both texts -/

/-- There are blocks above a stanza if a definition on its line is planned for. -/
theorem Layout.blocksAt_ne_nil {b : Builder} {ds : List Definition} {ss : List Stanza}
    {below : List Text} {plans : List Plan} {l l' : Lookups}
    (hlayout : Layout b .replace ds ss below) (hcode : ∀ s ∈ ss, isCode s.line)
    (hrun : PlanRun b .replace (inTextOrder ds) l plans l') {ss₁ : List Stanza} {s : Stanza}
    {ss₂ : List Stanza} (hss : ss = ss₁ ++ s :: ss₂) {d : Definition} (hd : d ∈ ds)
    (hstart : lineOf b d = (closed (flat ss₁ ++ s.above)).length) {p : Plan} (hp : p ∈ plans)
    (hplanned : PlannedFor b .replace d p) : blocksAt plans (flat ss₁) s ≠ [] := by
  obtain ⟨ts₁, t, ts₂, hat⟩ := hlayout.exists_at d hd
  obtain ⟨lines, hplan⟩ := hplanned.planWith_eq hat.stands
  rw [hat.stands.lineOf_eq] at hstart
  obtain ⟨rfl, rfl⟩ := eq_of_start_eq (hat.eq.symm.trans hss) hstart
  have hrange := hlayout.range_eq hat.eq hplan
  obtain ⟨new, hnew⟩ :=
    List.exists_mem_of_ne_nil _ (hlayout.plan_fields hcode hrun hat.eq hp hrange).1
  exact List.ne_nil_of_mem (mem_blocksAt hp hrange hnew)

namespace TwinRuns

variable {b b' : Builder} {ds : List Definition} {image : Definition → Definition}
  {us ws : List Stanza} {t t' : Stanza} {low : List Text} {l l' m m' : Lookups}
  {plans plans' : List Plan}
  (h : TwinRuns b b' ds image (us ++ t :: ws) (us ++ t' :: ws) low low l' m')
  (hcode : ∀ s ∈ us ++ t :: ws, isCode s.line) (hcode' : ∀ s ∈ us ++ t' :: ws, isCode s.line)
  (hrun : PlanRun b .replace (inTextOrder ds) l plans l')
  (hrun' : PlanRun b' .replace (inTextOrder (ds.map image)) m plans' m')
  (hending : b'.source.text.ending = b.source.text.ending) (hline : t'.line = t.line)
  (habove : renewed b.source.text.ending (blocksAt plans (flat us) t) t'.above =
    renewed b.source.text.ending (blocksAt plans (flat us) t) t.above)
include h hcode hcode' hrun hrun' hending hline habove

/-- If renewing makes the same of the one stanza, it makes the same of all. -/
theorem edited_eq {ss₁ ss₁' : List Stanza} {s s' : Stanza}
    (hopposite : Opposite (us ++ t :: ws) (us ++ t' :: ws) ss₁ s ss₁' s') :
    s'.edited Mode.replace.cut b'.source.text plans' (flat ss₁') =
      s.edited Mode.replace.cut b.source.text plans (flat ss₁) := by
  obtain ⟨ss₂, hss⟩ := hopposite.eq
  obtain ⟨ss₂', hss'⟩ := hopposite.eq'
  have hedited := h.layout.above_replaced hcode hrun hss
  have hedited' := h.layout'.above_replaced hcode' hrun' hss'
  rw [hending, h.blocksAt_eq hrun hrun' hopposite] at hedited'
  -- Where the stanzas differ, the lines above them are renewed to the same.
  have hsame : s'.line = s.line ∧
      renewed b.source.text.ending (blocksAt plans (flat ss₁) s) s'.above =
        renewed b.source.text.ending (blocksAt plans (flat ss₁) s) s.above := by
    rcases hopposite.eq_or with ⟨rfl, rfl, rfl, rfl⟩ | rfl
    · exact ⟨hline, habove⟩
    · exact ⟨rfl, rfl⟩
  refine Stanza.eq_of_parts ?_ ?_
  · rw [hedited, hedited', hsame.2]
  · rw [line_edited, line_edited, hsame.1]

theorem apply_eq : apply b'.source.text plans' = apply b.source.text plans := by
  have hall := editedAll_ext (by simp) fun _ _ _ _ hopposite =>
    h.edited_eq hcode hcode' hrun hrun' hending hline habove hopposite
  rw [h.layout'.apply_eq hrun', h.layout.apply_eq hrun, hall]

end TwinRuns

section Texts

variable {b : Builder} {src' : Syntax.Source} {ds : List Definition}
  {image : Definition → Definition} {upper lead rest rest' gap gap' below : List Text} {line : Text}
  (hdoc : HasDocumentation b.source.text upper lead rest gap line below)
  (hdoc' : HasDocumentation src'.text upper lead rest' gap' line below)
  (hds : ∀ d ∈ ds, isCode (lineWith b d))
  (h : Shifted b src' ds image
    (closed (upper ++ (lead ++ rest) ++ gap)).length
    (closed (upper ++ (lead ++ rest') ++ gap')).length)
include hdoc hdoc' hds h

/-- Both texts are laid out alike, but for the stanza with the documentation. -/
theorem exists_twinRuns {l' m' : Lookups}
    (hblock : RenderAlike b { b with source := src' } ds image l' m') :
    ∃ us u ws low, upper = flat us ++ u ∧
      (∀ s ∈ us ++ ⟨u ++ (lead ++ rest) ++ gap, line⟩ :: ws, isCode s.line) ∧
      (∀ s ∈ us ++ ⟨u ++ (lead ++ rest') ++ gap', line⟩ :: ws, isCode s.line) ∧
      TwinRuns b { b with source := src' } ds image
        (us ++ ⟨u ++ (lead ++ rest) ++ gap, line⟩ :: ws)
        (us ++ ⟨u ++ (lead ++ rest') ++ gap', line⟩ :: ws) low low l' m' := by
  obtain ⟨us, u, rfl, hus, hu⟩ := exists_codeStanzas upper
  obtain ⟨ws, low, rfl, hws, hlow⟩ := exists_codeStanzas below
  have hlines' := hdoc'.lines_stanzas rfl rfl
  have hss := hdoc.isCode_stanzas hus hu hws
  have hss' := hdoc'.isCode_stanzas hus hu hws
  have hlayout := layout_of_codeStanzas .replace (hdoc.lines_stanzas rfl rfl) hss hlow hds
  have hopposite : ∀ d ∈ ds, ∃ ss₁ s ss₂ ss₁' s' ss₂',
      At b (us ++ ⟨u ++ (lead ++ rest) ++ gap, line⟩ :: ws) low d ss₁ s ss₂ ∧
      At { b with source := src' } (us ++ ⟨u ++ (lead ++ rest') ++ gap', line⟩ :: ws) low (image d)
        ss₁' s' ss₂' ∧ ss₁'.length = ss₁.length ∧ s'.line = s.line := by
    intro d hd
    obtain ⟨ss₁, s, ss₂, hat⟩ := hlayout.exists_at d hd
    have hstart := h.startOf d hd
    simp only [List.append_assoc] at hstart hlines' hat ⊢
    have hmoved : ∃ ss₁' s' ss₂', At { b with source := src' }
        (us ++ ⟨u ++ (lead ++ (rest' ++ gap')), line⟩ :: ws) low (image d) ss₁' s' ss₂' ∧
        ss₁'.length = ss₁.length ∧ s'.line = s.line := hat.exists_opposite rfl hlines' hstart
    obtain ⟨ss₁', s', ss₂', hat', hsame⟩ := hmoved
    exact ⟨ss₁, s, ss₂, ss₁', s', ss₂', hat, hat', hsame⟩
  have hds' : ∀ d' ∈ ds.map image, isCode (lineWith { b with source := src' } d') := by
    intro d' hd'
    obtain ⟨d, hd, rfl⟩ := List.mem_map.1 hd'
    obtain ⟨ss₁, s, ss₂, ss₁', s', ss₂', hat, hat', -, hline⟩ := hopposite d hd
    rw [hat'.stands.lineWith_eq, hline, ← hat.stands.lineWith_eq]
    exact hds d hd
  exact ⟨us, u, ws, low, rfl, fun s hs => (hss s hs).1, fun s hs => (hss' s hs).1, hlayout,
    layout_of_codeStanzas .replace hlines' hss' hlow hds', inTextOrder_map h.startByte_le_iff,
    h.allows_eq, hopposite, hblock⟩

end Texts

/-- **Replaced documentation is forgotten.**  Two texts have documentation with the same leading
directives, and with the same directives further down, above the same line of code, and are the same
otherwise.  Their definitions are the same up to the shift of that line and get the same lines, and
some definition on it gets lines at all.  Then replacing makes the same text of both.  In that text
the new blocks and the inner directives stand between the leading directives and the line. -/
theorem replace_forgets {b : Builder} {src' : Syntax.Source} {ds : List Definition}
    {image : Definition → Definition} {upper lead rest rest' gap gap' below : List Text}
    {line : Text} (hdoc : HasDocumentation b.source.text upper lead rest gap line below)
    (hdoc' : HasDocumentation src'.text upper lead rest' gap' line below)
    (hkept : directivesOf rest' = directivesOf rest)
    (hnewline : src'.text.newline = b.source.text.newline)
    (hds : ∀ d ∈ ds, isCode (lineWith b d))
    (h : Shifted b src' ds image
      (closed (upper ++ (lead ++ rest) ++ gap)).length
      (closed (upper ++ (lead ++ rest') ++ gap')).length)
    {l l' : Lookups} {plans : List Plan}
    (hrun : (planAll b .replace ds).run.run l = (.ok plans, l'))
    (hlf : ∀ p ∈ plans, ∀ new ∈ p.lines, Sym.lineFeed ∉ new)
    (hplanned : ∃ d ∈ ds, lineOf b d = (closed (upper ++ (lead ++ rest) ++ gap)).length ∧
      ∃ p ∈ plans, PlannedFor b .replace d p)
    {m m' : Lookups} {r : Except Failure (List Plan)}
    (hrun' : (planAll { b with source := src' } .replace (ds.map image)).run.run m = (r, m'))
    (hblock : RenderAlike b { b with source := src' } ds image l' m') :
    ∃ plans', r = .ok plans' ∧ apply src'.text plans' = apply b.source.text plans ∧
      ∃ blocks pre post, blocks ≠ [] ∧
        blocks = stackBlocks (plans.filter fun p => p.range =
          ⟨(closed (upper ++ lead)).length, (closed (upper ++ (lead ++ rest) ++ gap)).length⟩) ∧
        (apply b.source.text plans).lines =
          pre ++ lead ++ (blocks ++ directivesOf rest).map (· ++ b.source.text.ending) ++
            line :: post ∧
        moved b.source.text plans (closed (upper ++ (lead ++ rest) ++ gap)).length =
          (closed (pre ++ lead ++
            (blocks ++ directivesOf rest).map (· ++ b.source.text.ending))).length := by
  obtain ⟨us, u, ws, low, rfl, hcode, hcode', htwins⟩ :=
    exists_twinRuns hdoc hdoc' hds h hblock
  have hplans := planEach_eq_ok_iff.1 hrun
  obtain ⟨plans', m'', hplans'⟩ := @PlanRun.exists_of_allows { b with source := src' } .replace
    (inTextOrder (ds.map image)) (fun d' hd' => by
      obtain ⟨d, hd, rfl⟩ := List.mem_map.1 (mem_inTextOrder.1 hd')
      rw [htwins.allows_eq d hd]
      exact hplans.allows_isOk d (mem_inTextOrder.2 hd)) m
  rw [planAll, planEach_eq_ok_iff.2 hplans', Prod.mk.injEq] at hrun'
  obtain ⟨rfl, rfl⟩ := hrun'
  -- Both runs end their new lines alike.
  have hending : src'.text.ending = b.source.text.ending := by
    rw [newline_eq, newline_eq] at hnewline
    exact List.append_cancel_right hnewline
  have hbol : (closed (flat us ++ u ++ (lead ++ rest) ++ gap)).length =
      (closed (flat us ++ (u ++ (lead ++ rest) ++ gap))).length := by
    simp only [List.append_assoc]
  have hne : blocksAt plans (flat us) ⟨u ++ (lead ++ rest) ++ gap, line⟩ ≠ [] := by
    obtain ⟨d, hd, hstart, p, hp, hplanned⟩ := hplanned
    exact htwins.layout.blocksAt_ne_nil hcode hplans rfl hd (hstart.trans hbol) hp hplanned
  -- Renewing leaves nothing of the old documentation but its directives, which are the same in
  -- both texts.
  have hrenewed := hdoc.renewed_eq rfl b.source.text.ending hne
  have hrenewed' := hdoc'.renewed_eq rfl b.source.text.ending hne
  rw [hkept, ← hrenewed] at hrenewed'
  refine ⟨plans', rfl, htwins.apply_eq hcode hcode' hplans hplans' hending rfl hrenewed', ?_⟩
  have habove := htwins.layout.above_replaced hcode hplans rfl
  rw [hrenewed] at habove
  refine ⟨_, flat (editedAll Mode.replace.cut b.source.text plans [] us) ++ u,
    flat (editedAll Mode.replace.cut b.source.text plans
      (flat us ++ all ⟨u ++ (lead ++ rest) ++ gap, line⟩) ws) ++ low, hne, ?_, ?_, ?_⟩
  · obtain ⟨hupper, hremoved, -⟩ := hdoc.cut_eq rfl
    rw [blocksAt, spot, hupper, hremoved]
    simp only [List.append_assoc]
  · rw [htwins.layout.lines_apply_split hplans hlf rfl, habove]
    simp only [List.append_assoc]
  · have hmoved := htwins.layout.moved_line hplans rfl (j := 0) (Or.inl (Nat.zero_le _))
    rw [Nat.add_zero, Nat.add_zero, habove] at hmoved
    rw [hbol, hmoved]
    simp only [List.append_assoc]

/-- Two methods, the first one below a directive and the lines `old`. -/
def switchedPair (old : Text) : Text :=
  "\n# :nocov:\n" ++ old ++ "def go\nend\ndef so\nend\n"

/-- The methods below documentation with a directive, and a blank line. -/
def pairBuilder : Builder :=
  plainBuilder (switchedPair "# @return [Text]\n# :nocov:\n\n")

/-- The methods below longer documentation around the same directive. -/
def pairAgain : Syntax.Source :=
  .ofText (switchedPair "# Goes.\n# :nocov:\n# @raise [Full]\n")

/-- The plan that renews the documentation above `go`. -/
def renewPairGo : Plan :=
  { renewBare "go" 11 39 with kept := ["# :nocov:"] }

/-- Longer documentation moves both methods, and replacing makes the same text of both. -/
theorem replace_forgets_pair :
    (planAll pairBuilder .replace [bareMethod "go" 39, bareMethod "so" 50]).run.run {} =
        (.ok [renewPairGo, renewBare "so" 50 50], {}) ∧
      ∃ plans', ((planAll { pairBuilder with source := pairAgain } .replace
        [bareMethod "go" 45, bareMethod "so" 56]).run.run {}).1 = .ok plans' ∧
          apply pairAgain.text plans' =
            apply pairBuilder.source.text [renewPairGo, renewBare "so" 50 50] := by
  have hsorted : inTextOrder [bareMethod "go" 39, bareMethod "so" 50] =
      [bareMethod "go" 39, bareMethod "so" 50] :=
    List.mergeSort_of_pairwise (by decide)
  have hrun : (planAll pairBuilder .replace [bareMethod "go" 39, bareMethod "so" 50]).run.run {} =
      (.ok [renewPairGo, renewBare "so" 50 50], {}) := by
    rw [planAll, hsorted]
    rfl
  have hdoc : HasDocumentation pairBuilder.source.text [""] ["# :nocov:"]
      ["# @return [Text]", "# :nocov:"] [""] "def go" ["end", "def so", "end", ""] := by
    constructor <;> decide
  have hdoc' : HasDocumentation pairAgain.text [""] ["# :nocov:"]
      ["# Goes.", "# :nocov:", "# @raise [Full]"] [] "def go" ["end", "def so", "end", ""] := by
    constructor <;> decide
  let image : Definition → Definition := fun d => bareMethod d.name (d.node.startByte + 6)
  have hboth : ∀ {P : Definition → Prop}, P (bareMethod "go" 39) → P (bareMethod "so" 50) →
      ∀ d ∈ [bareMethod "go" 39, bareMethod "so" 50], P d := fun hgo hso =>
    List.forall_mem_cons.2 ⟨hgo, List.forall_mem_singleton.2 hso⟩
  have hshifted : Shifted pairBuilder pairAgain
      [bareMethod "go" 39, bareMethod "so" 50] image 39 45 :=
    ⟨hboth rfl rfl, by decide, hboth rfl rfl⟩
  have halike : ∀ d ∈ [bareMethod "go" 39, bareMethod "so" 50],
      Alike pairBuilder.settings pairBuilder.source d pairAgain (image d) :=
    hboth (alike_bareMethod ..) (alike_bareMethod ..)
  obtain ⟨plans', hplans', hsame, -⟩ := replace_forgets hdoc hdoc' (by decide) (by decide)
    (by decide) hshifted hrun (by decide)
    ⟨_, List.mem_cons_self, rfl, _, List.mem_cons_self, rfl, {}, rfl⟩ rfl
    (renderAlike_of_alike halike (agree_empty _))
  exact ⟨hrun, plans', hplans', hsame⟩

end RubyDoc.Edit
