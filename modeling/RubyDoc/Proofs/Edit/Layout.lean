import RubyDoc.Proofs.Edit.Group
import RubyDoc.Proofs.Edit.PlanRun

/-!
# A text laid out for its definitions

A layout is a text cut into stanzas such that every definition stands on the line of a stanza and a
mode cuts the lines above it inside the stanza.  Then the plans of a run edit the stanzas one by one
(`Layout.apply_eq`), and a definition that moves with its line stands on the line of the edited
stanza (`Layout.image`).  Any text can be laid out at its lines of code if all definitions stand on
such lines; for inserting, any text can be laid out line by line.
-/

namespace RubyDoc.Edit

open Text Comment Block Outline Signature Stanza

/-! ## Stanzas -/

/-- The indentation of the line of a stanza. -/
def Stanza.indent (s : Stanza) : Text :=
  s.line.takeWhile isIndentSym

theorem Stanza.isIndentSym_of_mem_indent (s : Stanza) : ∀ c ∈ s.indent, isIndentSym c :=
  fun _ h => List.mem_takeWhile_imp h

/-- Every list of lines falls into stanzas that end in a line of code, and a rest without code. -/
theorem exists_codeStanzas (ls : List Text) :
    ∃ ss below, ls = flat ss ++ below ∧
      (∀ s ∈ ss, isCode s.line ∧ ∀ l ∈ s.above, isCode l = false) ∧
      ∀ l ∈ below, isCode l = false := by
  induction ls with
  | nil =>
      exact ⟨[], [], rfl, fun s hs => absurd hs List.not_mem_nil,
        fun l hl => absurd hl List.not_mem_nil⟩
  | cons l ls ih =>
      obtain ⟨ss, below, rfl, hss, hbelow⟩ := ih
      cases hl : isCode l with
      | true =>
          refine ⟨⟨[], l⟩ :: ss, below, rfl, List.forall_mem_cons.2 ⟨⟨hl, ?_⟩, hss⟩, hbelow⟩
          exact fun m hm => absurd hm List.not_mem_nil
      | false =>
          -- The line joins the next stanza, if there is one.
          cases ss with
          | nil => exact ⟨[], l :: below, rfl, hss, List.forall_mem_cons.2 ⟨hl, hbelow⟩⟩
          | cons s ss =>
              obtain ⟨hs, hss⟩ := List.forall_mem_cons.1 hss
              exact ⟨⟨l :: s.above, s.line⟩ :: ss, below, rfl, List.forall_mem_cons.2
                ⟨⟨hs.1, List.forall_mem_cons.2 ⟨hl, hs.2⟩⟩, hss⟩, hbelow⟩

/-- A line of code is the line of a stanza. -/
theorem exists_stanza_of_isCode {ss : List Stanza} {below above rest : List Text} {l : Text}
    (hss : ∀ s ∈ ss, isCode s.line ∧ ∀ m ∈ s.above, isCode m = false)
    (hbelow : ∀ m ∈ below, isCode m = false) (h : above ++ l :: rest = flat ss ++ below)
    (hl : isCode l) :
    ∃ ss₁ s ss₂, ss = ss₁ ++ s :: ss₂ ∧ above = flat ss₁ ++ s.above ∧ l = s.line ∧
      rest = flat ss₂ ++ below := by
  induction ss generalizing above with
  | nil =>
      have hmem : l ∈ below := by
        rw [flat_nil, List.nil_append] at h
        rw [← h]
        simp
      rw [hbelow l hmem] at hl
      cases hl
  | cons s ss ih =>
      obtain ⟨hs, hss⟩ := List.forall_mem_cons.1 hss
      rw [flat_cons, all, List.append_assoc, List.append_assoc, List.singleton_append] at h
      -- Among the lines of `s` only the last one is code; any other line lies below them.
      rcases List.append_eq_append_iff.1 h with ⟨more, habove, hrest⟩ | ⟨more, habove, hrest⟩
      · cases more with
        | nil =>
            rw [List.append_nil] at habove
            obtain ⟨hline, hrest⟩ := List.cons.inj hrest
            exact ⟨[], s, ss, rfl, habove.symm, hline, hrest⟩
        | cons m more =>
            obtain ⟨rfl, -⟩ := List.cons.inj hrest
            rw [hs.2 l (by simp [habove])] at hl
            cases hl
      · cases more with
        | nil =>
            rw [List.append_nil] at habove
            obtain ⟨hline, hrest⟩ := List.cons.inj hrest
            exact ⟨[], s, ss, rfl, habove, hline.symm, hrest.symm⟩
        | cons m more =>
            obtain ⟨rfl, htail⟩ := List.cons.inj hrest
            obtain ⟨ss₁, t, ss₂, rfl, rfl, hline, hbelow⟩ := ih hss htail.symm
            refine ⟨s :: ss₁, t, ss₂, rfl, ?_, hline, hbelow⟩
            rw [habove, flat_cons, all]
            simp only [List.append_assoc, List.cons_append, List.nil_append]

theorem isCode_of_getLast?_flat {ss : List Stanza} (hss : ∀ s ∈ ss, isCode s.line) :
    ∀ l, (flat ss).getLast? = some l → isCode l := by
  intro l hl
  rcases List.eq_nil_or_concat' ss with rfl | ⟨ts, s, rfl⟩
  · cases hl
  · rw [flat_append, flat_cons, flat_nil, List.append_nil, all, ← List.append_assoc,
      List.getLast?_concat, Option.some.injEq] at hl
    exact hl ▸ hss s (by simp)

/-- The comment above a line of code ends at the line of code before. -/
theorem split_above {ss ss₁ ss₂ : List Stanza} {s : Stanza} (hss : ss = ss₁ ++ s :: ss₂)
    (hcode : ∀ t ∈ ss, isCode t.line) :
    Split (flat ss₁ ++ s.above) (flat ss₁ ++ beforeComment s.above) (lastComment s.above)
      (gapBelow s.above) := by
  refine split_append (isCode_of_getLast?_flat fun t ht => hcode t ?_) s.above
  rw [hss]
  exact List.mem_append_left _ ht

/-- Of two places in a list, one comes first or they are the same. -/
theorem append_cons_cases {α : Type} {as₁ as₂ bs₁ bs₂ : List α} {a b : α}
    (h : as₁ ++ a :: as₂ = bs₁ ++ b :: bs₂) :
    (as₁ = bs₁ ∧ a = b ∧ as₂ = bs₂) ∨
      (∃ more, bs₁ = as₁ ++ a :: more ∧ as₂ = more ++ b :: bs₂) ∨
      ∃ more, as₁ = bs₁ ++ b :: more ∧ bs₂ = more ++ a :: as₂ := by
  rcases List.append_eq_append_iff.1 h with ⟨more, hbs, hrest⟩ | ⟨more, has, hrest⟩
  · cases more with
    | nil =>
        obtain ⟨rfl, rfl⟩ := List.cons.inj hrest
        exact Or.inl ⟨by rw [hbs, List.append_nil], rfl, rfl⟩
    | cons c more =>
        obtain ⟨rfl, htail⟩ := List.cons.inj hrest
        exact Or.inr (Or.inl ⟨more, hbs, htail⟩)
  · cases more with
    | nil =>
        obtain ⟨rfl, rfl⟩ := List.cons.inj hrest
        exact Or.inl ⟨by rw [has, List.append_nil], rfl, rfl⟩
    | cons c more =>
        obtain ⟨rfl, htail⟩ := List.cons.inj hrest
        exact Or.inr (Or.inr ⟨more, has, htail⟩)

/-- Stanzas of one list with the same range are the same. -/
theorem eq_of_spot_eq {cut : ∀ ls : List Text, Cut ls} {ss₁ ss₂ ts₁ ts₂ : List Stanza}
    {s t : Stanza} (hlist : ss₁ ++ s :: ss₂ = ts₁ ++ t :: ts₂)
    (hspot : s.spot cut (flat ss₁) = t.spot cut (flat ts₁)) : ss₁ = ts₁ ∧ s = t ∧ ss₂ = ts₂ := by
  -- A stanza further down has a range further down.
  have hbehind : ∀ (us : List Stanza) (u : Stanza) (ws : List Stanza) (v : Stanza),
      u.spot cut (flat us) ≠ v.spot cut (flat (us ++ u :: ws)) := by
    intro us u ws v heq
    have hstop := @spot_stop_le cut (flat us) u
    have hstart := @lt_spot_start cut us u ws v
    have hle := @spot_start_le_stop cut (flat us) u
    rw [← heq] at hstart
    omega
  rcases append_cons_cases hlist with hsame | ⟨more, rfl, -⟩ | ⟨more, rfl, -⟩
  · exact hsame
  · exact absurd hspot (hbehind ss₁ s more t)
  · exact absurd hspot.symm (hbehind ts₁ t more s)

/-! ## Layouts -/

/-- A definition stands on the line of the stanza `s`, with the stanzas `ss₁` above it and `ss₂`
below. -/
structure At (b : Builder) (ss : List Stanza) (below : List Text) (d : Definition)
    (ss₁ : List Stanza) (s : Stanza) (ss₂ : List Stanza) : Prop where
  eq : ss = ss₁ ++ s :: ss₂
  stands : Stands b d (flat ss₁ ++ s.above) s.line (flat ss₂ ++ below)

/-- A text laid out in stanzas for some definitions and a mode. -/
structure Layout (b : Builder) (mode : Mode) (ds : List Definition) (ss : List Stanza)
    (below : List Text) : Prop where
  lines_eq : b.source.text.lines = flat ss ++ below
  exists_at : ∀ d ∈ ds, ∃ ss₁ s ss₂, At b ss below d ss₁ s ss₂
  /-- The lines above each stanza make no difference to how the mode cuts. -/
  cut_eq : ∀ ss₁ s ss₂, ss = ss₁ ++ s :: ss₂ →
    (mode.cut (flat ss₁ ++ s.above)).upper = flat ss₁ ++ (mode.cut s.above).upper ∧
      (mode.cut (flat ss₁ ++ s.above)).removed = (mode.cut s.above).removed ∧
      (mode.cut (flat ss₁ ++ s.above)).lower = (mode.cut s.above).lower

/-- Stanzas that end in the lines of code of a text lay it out. -/
theorem layout_of_codeStanzas {b : Builder} (mode : Mode) {ds : List Definition}
    {ss : List Stanza} {below : List Text} (hlines : b.source.text.lines = flat ss ++ below)
    (hss : ∀ s ∈ ss, isCode s.line ∧ ∀ l ∈ s.above, isCode l = false)
    (hbelow : ∀ l ∈ below, isCode l = false) (hds : ∀ d ∈ ds, isCode (lineWith b d)) :
    Layout b mode ds ss below := by
  refine ⟨hlines, fun d hd => ?_, ?_⟩
  · obtain ⟨ls, l, rest, hstands⟩ := exists_stands b d
    have hcode : isCode l := hstands.lineWith_eq ▸ hds d hd
    obtain ⟨ss₁, s, ss₂, hsplit, rfl, rfl, rfl⟩ :=
      exists_stanza_of_isCode hss hbelow (hstands.lines_eq.symm.trans hlines) hcode
    exact ⟨ss₁, s, ss₂, hsplit, hstands⟩
  · rintro ss₁ s ss₂ rfl
    refine mode.cut_append (isCode_of_getLast?_flat fun t ht => ?_) s.above
    exact (hss t (List.mem_append_left _ ht)).1

/-- A text is laid out at its lines of code. -/
theorem exists_layout (b : Builder) (mode : Mode) {ds : List Definition}
    (hds : ∀ d ∈ ds, isCode (lineWith b d)) :
    ∃ ss below, Layout b mode ds ss below ∧
      (∀ s ∈ ss, isCode s.line ∧ ∀ l ∈ s.above, isCode l = false) ∧
      ∀ l ∈ below, isCode l = false := by
  obtain ⟨ss, below, hlines, hss, hbelow⟩ := exists_codeStanzas b.source.text.lines
  exact ⟨ss, below, layout_of_codeStanzas mode hlines hss hbelow hds, hss, hbelow⟩

/-- For inserting, a text is laid out line by line. -/
theorem exists_layout_insert (b : Builder) (ds : List Definition) :
    ∃ ss, Layout b .insert ds ss [] ∧ ∀ s ∈ ss, s.above = [] := by
  have hflat : ∀ ls : List Text, flat (ls.map (Stanza.mk [])) = ls := by
    intro ls
    induction ls with
    | nil => rfl
    | cons l ls ih => rw [List.map_cons, flat_cons, ih]; rfl
  refine ⟨b.source.text.lines.map (Stanza.mk []), ⟨?_, fun d _ => ?_, ?_⟩, ?_⟩
  · rw [hflat, List.append_nil]
  · obtain ⟨ls, l, rest, hstands⟩ := exists_stands b d
    refine ⟨ls.map (Stanza.mk []), ⟨[], l⟩, rest.map (Stanza.mk []), ?_, ?_⟩
    · rw [hstands.lines_eq, List.map_append, List.map_cons]
    · rw [hflat, hflat, List.append_nil, List.append_nil]
      exact hstands
  · exact fun _ _ _ _ => ⟨rfl, rfl, rfl⟩
  · intro s hs
    obtain ⟨l, -, rfl⟩ := List.mem_map.1 hs
    rfl

/-! ## The plans of a run in a layout -/

theorem mem_inTextOrder {ds : List Definition} {d : Definition} : d ∈ inTextOrder ds ↔ d ∈ ds :=
  List.mem_mergeSort

/-- Definitions keep their order if their bytes do. -/
theorem inTextOrder_map {ds : List Definition} {image : Definition → Definition}
    (h : ∀ d ∈ ds, ∀ e ∈ ds,
      (image d).node.startByte ≤ (image e).node.startByte ↔ d.node.startByte ≤ e.node.startByte) :
    inTextOrder (ds.map image) = (inTextOrder ds).map image :=
  (List.map_mergeSort fun d hd e he => decide_eq_decide.2 (h d hd e he).symm).symm

namespace Layout

variable {b : Builder} {mode : Mode} {ds : List Definition} {ss : List Stanza} {below : List Text}
  {plans : List Plan} {l l' : Lookups}

theorem range_eq (hlayout : Layout b mode ds ss below) {ss₁ : List Stanza} {s : Stanza}
    {ss₂ : List Stanza} (hss : ss = ss₁ ++ s :: ss₂) {indent : Text} {lines : List Text} {p : Plan}
    (h : mode.planWith (flat ss₁ ++ s.above) indent lines = some p) :
    p.range = s.spot mode.cut (flat ss₁) := by
  obtain ⟨hupper, hremoved, -⟩ := hlayout.cut_eq ss₁ s ss₂ hss
  obtain ⟨-, rfl⟩ := Mode.planWith_eq_some h
  rw [Plan.range, spot, hupper, hremoved]

section Run

variable (hlayout : Layout b mode ds ss below) (hrun : PlanRun b mode (inTextOrder ds) l plans l')
include hlayout hrun

/-- Every plan is the plan for a definition on the line of some stanza. -/
theorem exists_plan_at {p : Plan} (hp : p ∈ plans) :
    ∃ d ∈ ds, ∃ ss₁ s ss₂ k, At b ss below d ss₁ s ss₂ ∧ b.allows d = .ok true ∧
      mode.planWith (flat ss₁ ++ s.above) s.indent
        ((rendered b mode d (lastComment (flat ss₁ ++ s.above)) s.indent).run k).1 = some p := by
  obtain ⟨d, hd, hallowed, k, -, -, hplan⟩ := hrun.mem_plan hp
  obtain ⟨ss₁, s, ss₂, hat⟩ := hlayout.exists_at d (mem_inTextOrder.1 hd)
  rw [hat.stands.run_plan mode k] at hplan
  exact ⟨d, mem_inTextOrder.1 hd, ss₁, s, ss₂, k, hat, hallowed, hplan⟩

theorem range_mem_spots : ∀ p ∈ plans, p.range ∈ spots mode.cut [] ss := by
  intro p hp
  obtain ⟨d, -, ss₁, s, ss₂, k, hat, -, hplan⟩ := hlayout.exists_plan_at hrun hp
  rw [hlayout.range_eq hat.eq hplan, hat.eq, spots_append, spots]
  exact List.mem_append_right _ List.mem_cons_self

/-- A plan for the range of a stanza is the plan for a definition on its line. -/
theorem plan_at_of_range {ss₁ : List Stanza} {s : Stanza} {ss₂ : List Stanza}
    (hss : ss = ss₁ ++ s :: ss₂) {p : Plan} (hp : p ∈ plans)
    (hrange : p.range = s.spot mode.cut (flat ss₁)) :
    ∃ d ∈ ds, ∃ k, At b ss below d ss₁ s ss₂ ∧ b.allows d = .ok true ∧
      mode.planWith (flat ss₁ ++ s.above) s.indent
        ((rendered b mode d (lastComment (flat ss₁ ++ s.above)) s.indent).run k).1 = some p := by
  obtain ⟨d, hd, ts₁, t, ts₂, k, hat, hallowed, hplan⟩ := hlayout.exists_plan_at hrun hp
  rw [hlayout.range_eq hat.eq hplan] at hrange
  obtain ⟨rfl, rfl, rfl⟩ := eq_of_spot_eq (hss.symm.trans hat.eq) hrange.symm
  exact ⟨d, hd, k, hat, hallowed, hplan⟩

/-- What the plans for the range of a stanza have in common. -/
theorem fields_of_range (hcode : ∀ t ∈ ss, isCode t.line) {ss₁ : List Stanza} {s : Stanza}
    {ss₂ : List Stanza} (hss : ss = ss₁ ++ s :: ss₂) {p : Plan} (hp : p ∈ plans)
    (hrange : p.range = s.spot mode.cut (flat ss₁)) :
    p.lines ≠ [] ∧ p.indent = s.indent ∧ p.joins = mode.joins (lastComment s.above) ∧
      p.kept = mode.kept (lastComment s.above) := by
  obtain ⟨d, -, k, hat, -, hplan⟩ := hlayout.plan_at_of_range hrun hss hp hrange
  obtain ⟨hlines, rfl⟩ := Mode.planWith_eq_some hplan
  obtain ⟨-, hcomment, -⟩ := (split_above hss hcode).eq_parts
  exact ⟨hlines, rfl, congrArg mode.joins hcomment, congrArg mode.kept hcomment⟩

/-- **The plans of a run edit the stanzas one by one.** -/
theorem apply_eq : apply b.source.text plans =
    ofLines (flat (editedAll mode.cut b.source.text plans [] ss) ++ below) := by
  have htext : b.source.text = ofLines (flat ss ++ below) := by
    rw [← hlayout.lines_eq, ofLines_lines]
  conv_lhs => rw [htext]
  rw [apply_ofLines (hlayout.range_mem_spots hrun), ← htext]

/-- The new lines are comment lines. -/
theorem isComment_of_mem_replacement {r : Range} {line : Text} (h : line ∈ replacement plans r) :
    isComment line := by
  obtain ⟨p, hp, hline⟩ := mem_groupLines h
  obtain ⟨d, -, ss₁, s, ss₂, k, hat, -, hplan⟩ :=
    hlayout.exists_plan_at hrun (List.mem_of_mem_filter hp)
  obtain ⟨-, rfl⟩ := Mode.planWith_eq_some hplan
  rcases hline with hline | rfl | hline
  · obtain ⟨rest, rfl⟩ := signed_of_mem_rendered hline
    exact isComment_indented s.isIndentSym_of_mem_indent rest
  · exact isComment_indented s.isIndentSym_of_mem_indent []
  · obtain ⟨m, hm, rfl⟩ := Mode.exists_of_mem_kept hline
    rw [isComment_withoutReturn]
    exact (split_self _).isComment_of_mem m hm

theorem lineFeed_notMem_replacement (hlf : ∀ p ∈ plans, ∀ line ∈ p.lines, Sym.lineFeed ∉ line)
    {r : Range} {line : Text} (h : line ∈ replacement plans r) : Sym.lineFeed ∉ line := by
  obtain ⟨p, hp, hline⟩ := mem_groupLines h
  obtain ⟨d, -, ss₁, s, ss₂, k, hat, -, hplan⟩ :=
    hlayout.exists_plan_at hrun (List.mem_of_mem_filter hp)
  rcases hline with hline | rfl | hline
  · exact hlf p (List.mem_of_mem_filter hp) line hline
  · obtain ⟨-, rfl⟩ := Mode.planWith_eq_some hplan
    intro hmem
    rcases List.mem_append.1 hmem with hmem | hmem
    · exact absurd (s.isIndentSym_of_mem_indent _ hmem) (by decide)
    · exact absurd hmem (by decide)
  · obtain ⟨-, rfl⟩ := Mode.planWith_eq_some hplan
    obtain ⟨m, hm, rfl⟩ := Mode.exists_of_mem_kept hline
    have hmem : m ∈ b.source.text.lines := by
      rw [hat.stands.lines_eq]
      exact List.mem_append_left _ (mem_of_mem_lastComment hm)
    exact lineFeed_notMem_withoutReturn (lineFeed_notMem_of_mem_lines hmem)

/-- The lines of the edited text. -/
theorem lines_apply (hlf : ∀ p ∈ plans, ∀ line ∈ p.lines, Sym.lineFeed ∉ line) :
    (apply b.source.text plans).lines =
      flat (editedAll mode.cut b.source.text plans [] ss) ++ below := by
  rw [hlayout.apply_eq hrun]
  refine lines_ofLines ?_ fun line hline => ?_
  · have hne := lines_ne_nil b.source.text
    rw [hlayout.lines_eq] at hne
    cases ss with
    | nil => exact hne
    | cons s ss => simp [editedAll, all]
  · have hold : ∀ m ∈ flat ss ++ below, Sym.lineFeed ∉ m := fun m hm =>
      lineFeed_notMem_of_mem_lines (hlayout.lines_eq ▸ hm)
    rcases List.mem_append.1 hline with hline | hline
    · rcases mem_flat_editedAll hline with hline | ⟨r, new, hnew, rfl⟩
      · exact hold line (List.mem_append_left _ hline)
      · have hending : Sym.lineFeed ∉ b.source.text.ending := by
          rw [ending]
          split <;> decide
        have := hlayout.lineFeed_notMem_replacement hrun hlf hnew
        simp [this, hending]
    · exact hold line (List.mem_append_right _ hline)

/-- The edited text, seen from the line of a stanza. -/
theorem lines_apply_split (hlf : ∀ p ∈ plans, ∀ line ∈ p.lines, Sym.lineFeed ∉ line)
    {ss₁ : List Stanza} {s : Stanza} {ss₂ : List Stanza} (hss : ss = ss₁ ++ s :: ss₂) :
    (apply b.source.text plans).lines =
      flat (editedAll mode.cut b.source.text plans [] ss₁) ++
        (s.edited mode.cut b.source.text plans (flat ss₁)).above ++
          s.line :: (flat (editedAll mode.cut b.source.text plans (flat ss₁ ++ s.all) ss₂) ++
            below) := by
  rw [hlayout.lines_apply hrun hlf, hss, editedAll_split]
  simp only [flat_append, flat_cons, all, List.append_assoc, List.cons_append, List.nil_append,
    line_edited]

/-- A place in the line of a stanza moves with the line. -/
theorem moved_line {ss₁ : List Stanza} {s : Stanza} {ss₂ : List Stanza}
    (hss : ss = ss₁ ++ s :: ss₂) {j : Nat} (hj : j ≤ s.line.length ∨ ss₂ = []) :
    moved b.source.text plans ((closed (flat ss₁ ++ s.above)).length + j) =
      (closed (flat (editedAll mode.cut b.source.text plans [] ss₁) ++
        (s.edited mode.cut b.source.text plans (flat ss₁)).above)).length + j := by
  have htext : b.source.text = ofLines (flat (ss₁ ++ s :: ss₂) ++ below) := by
    rw [← hss, ← hlayout.lines_eq, ofLines_lines]
  have hmoved := @moved_eq mode.cut plans ss₁ s ss₂ below
    (hss ▸ hlayout.range_mem_spots hrun) j hj
  rwa [← htext] at hmoved

/-- A definition that moves with its line stands on the line of the edited stanza. -/
theorem image (hlf : ∀ p ∈ plans, ∀ line ∈ p.lines, Sym.lineFeed ∉ line) {b' : Builder}
    {d d' : Definition} (htext : b'.source.text = apply b.source.text plans)
    (hstart : b'.source.startOf d'.node =
      moved b.source.text plans (b.source.startOf d.node))
    {ss₁ : List Stanza} {s : Stanza} {ss₂ : List Stanza} (hat : At b ss below d ss₁ s ss₂) :
    At b' (editedAll mode.cut b.source.text plans [] ss) below d'
      (editedAll mode.cut b.source.text plans [] ss₁)
      (s.edited mode.cut b.source.text plans (flat ss₁))
      (editedAll mode.cut b.source.text plans (flat ss₁ ++ s.all) ss₂) := by
  have heq := @editedAll_split mode.cut b.source.text plans ss₁ s ss₂
  rw [← hat.eq] at heq
  refine ⟨heq, ⟨?_, ?_⟩⟩
  · rw [htext, hlayout.lines_apply_split hrun hlf hat.eq, line_edited]
  · have hlies := hat.stands.liesIn
    -- The definition starts `j` symbols into the line, past its end only if it is the last.
    obtain ⟨j, hj⟩ := Nat.exists_eq_add_of_le hlies.1
    have hinside : j ≤ s.line.length ∨ ss₂ = [] ∧ below = [] := by
      refine hlies.2.imp (fun h => by omega) fun h => ?_
      obtain ⟨hflat, hbelow⟩ := List.append_eq_nil_iff.1 h
      cases ss₂ with
      | nil => exact ⟨rfl, hbelow⟩
      | cons t ss₂ => simp [all] at hflat
    rw [hstart, hj, hlayout.moved_line hrun hat.eq (hinside.imp_right And.left)]
    refine ⟨Nat.le_add_right _ _, hinside.imp (fun h => ?_) ?_⟩
    · rw [line_edited]
      omega
    · rintro ⟨rfl, rfl⟩
      rfl

end Run

end Layout

end RubyDoc.Edit
