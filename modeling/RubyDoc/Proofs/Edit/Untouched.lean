import RubyDoc.Proofs.Edit.Layout

/-!
# Code is never touched

When every definition stands on a line of code, planning and carrying out the plans leaves all lines
of code as they are, in their order (`planAll_keeps_code`).  Inserting and merging only put whole
comment lines above lines of the text.  Replacing also takes lines out, but only comment lines and
blank lines directly above the line of a documented definition.  Whether what is taken out deserved
to stay is another question, and not answered here.
-/

namespace RubyDoc.Edit

open Text Comment Block Outline Signature Stanza

/-- `out` is the text `t` with whole comment lines put in where a line starts. -/
inductive Inserts : (t out : Text) → Prop
  | rest (t : Text) : Inserts t t
  | keep (line : Text) {t out : Text} (h : Inserts t out) :
      Inserts (line ++ Sym.lineFeed :: t) (line ++ Sym.lineFeed :: out)
  | insert {line t out : Text} (hline : isComment line) (hlf : Sym.lineFeed ∉ line)
      (h : Inserts t out) : Inserts t (line ++ Sym.lineFeed :: out)

/-- `out` are the lines `rest`, which stand below the lines `above`, with comment lines put in above
some of them and lines taken out that are `gone`. -/
inductive Edits (gone : (above cs : List Text) → Prop) : (above rest out : List Text) → Prop
  | last (above : List Text) (line : Text) : Edits gone above [line] [line]
  | keep {above rest out : List Text} (line : Text) (h : Edits gone (above ++ [line]) rest out) :
      Edits gone above (line :: rest) (line :: out)
  | insert {above rest out : List Text} {line : Text} (hline : isComment line)
      (h : Edits gone above rest out) : Edits gone above rest (line :: out)
  | drop {above cs rest out : List Text} (hgone : gone above cs)
      (h : Edits gone (above ++ cs) rest out) : Edits gone above (cs ++ rest) out

/-- The lines `cs` below the lines `above` are comments and blank lines, and the next line is that
of a documented definition. -/
def Outdated (b : Builder) (ds : List Definition) (above cs : List Text) : Prop :=
  (∀ line ∈ cs, isComment line ∨ line.isBlank) ∧
    ∃ d ∈ ds, (documentationAbove? b.source.text (lineOf b d)).isSome ∧
      lineOf b d = (closed (above ++ cs)).length

theorem isCode_eq_false {line : Text} (h : isComment line ∨ line.isBlank) :
    isCode line = false := by
  rw [isCode]
  rcases h with h | h
  · rw [h, Bool.not_true, Bool.and_false]
  · rw [h, Bool.not_true, Bool.false_and]

namespace Edits

variable {gone : (above cs : List Text) → Prop} {above rest out : List Text}

theorem keepAll (ls : List Text) (h : Edits gone (above ++ ls) rest out) :
    Edits gone above (ls ++ rest) (ls ++ out) := by
  induction ls generalizing above with
  | nil => simpa using h
  | cons line ls ih =>
      refine .keep line (ih ?_)
      rwa [List.append_assoc]

theorem insertAll {new : List Text} (hnew : ∀ line ∈ new, isComment line)
    (h : Edits gone above rest out) : Edits gone above rest (new ++ out) := by
  induction new with
  | nil => exact h
  | cons line new ih =>
      obtain ⟨hline, hnew⟩ := List.forall_mem_cons.1 hnew
      exact .insert hline (ih hnew)

theorem keep_or_last {line : Text}
    (h : rest = [] ∧ out = [] ∨ Edits gone (above ++ [line]) rest out) :
    Edits gone above (line :: rest) (line :: out) := by
  rcases h with ⟨rfl, rfl⟩ | h
  · exact .last above line
  · exact .keep line h

theorem refl {ls : List Text} (h : ls ≠ []) : Edits gone above ls ls := by
  obtain ⟨front, line, rfl⟩ := List.eq_nil_or_concat' ls |>.resolve_left h
  exact keepAll front (.last _ line)

theorem filter_isCode (hgone : ∀ above cs, gone above cs → ∀ line ∈ cs, isCode line = false)
    (h : Edits gone above rest out) : out.filter isCode = rest.filter isCode := by
  induction h with
  | last _ _ => rfl
  | keep line _ ih => rw [List.filter_cons, List.filter_cons, ih]
  | insert hline _ ih => rw [List.filter_cons, isCode_eq_false (Or.inl hline), ih]; rfl
  | @drop above cs rest out h _ ih =>
      have hnone : cs.filter isCode = [] := by
        rw [List.filter_eq_nil_iff]
        intro line hline
        rw [hgone above cs h line hline]
        exact Bool.false_ne_true
      rw [List.filter_append, hnone, ih]
      rfl

theorem out_ne_nil (h : Edits gone above rest out) : out ≠ [] := by
  induction h with
  | last _ _ => exact List.cons_ne_nil _ _
  | keep _ _ _ => exact List.cons_ne_nil _ _
  | insert _ _ _ => exact List.cons_ne_nil _ _
  | drop _ _ ih => exact ih

theorem rest_ne_nil (h : Edits gone above rest out) : rest ≠ [] := by
  induction h with
  | last _ _ => exact List.cons_ne_nil _ _
  | keep _ _ _ => exact List.cons_ne_nil _ _
  | insert _ _ ih => exact ih
  | drop _ _ ih => exact List.append_ne_nil_of_right_ne_nil _ ih

/-- Where nothing is taken out, comment lines are put into the text. -/
theorem inserts (hgone : ∀ above cs, ¬gone above cs) (h : Edits gone above rest out)
    (hlf : ∀ line ∈ out, Sym.lineFeed ∉ line) : Inserts (ofLines rest) (ofLines out) := by
  induction h with
  | last _ line => exact .rest _
  | keep line h ih =>
      rw [ofLines_cons line h.rest_ne_nil, ofLines_cons line h.out_ne_nil]
      exact .keep line (ih fun m hm => hlf m (List.mem_cons_of_mem _ hm))
  | insert hline h ih =>
      rw [ofLines_cons _ h.out_ne_nil]
      exact .insert hline (hlf _ List.mem_cons_self)
        (ih fun m hm => hlf m (List.mem_cons_of_mem _ hm))
  | drop h _ _ => exact absurd h (hgone _ _)

end Edits

/-- A cut takes lines out only where documentation is replaced. -/
theorem Mode.removed_ne_nil {mode : Mode} {ls : List Text} (h : (mode.cut ls).removed ≠ []) :
    mode = .replace ∧ documents (lastComment ls) := by
  cases mode with
  | insert => exact absurd rfl h
  | replace =>
      cases hdoc : documents (lastComment ls) with
      | true => exact ⟨rfl, rfl⟩
      | false => exact absurd (cut_replace_of_not_documents hdoc).2.1 h
  | merge =>
      cases hdoc : documents (lastComment ls) with
      | true => exact absurd (cut_merge_of_documents hdoc).2.1 h
      | false =>
          by_cases hgap : gapBelow ls = []
          · exact absurd (cut_merge_of_touching hdoc hgap).2.1 h
          · exact absurd (cut_merge_of_apart hdoc hgap).2.1 h

namespace Layout

variable {b : Builder} {mode : Mode} {ds : List Definition} {ss : List Stanza} {below : List Text}
  {plans : List Plan} {l l' : Lookups}
  (hlayout : Layout b mode ds ss below) (hrun : PlanRun b mode (inTextOrder ds) l plans l')
include hlayout hrun

/-- What a stanza loses is outdated. -/
theorem outdated_of_removed {ss₁ : List Stanza} {s : Stanza} {ss₂ : List Stanza}
    (hss : ss = ss₁ ++ s :: ss₂) (hremoved : (mode.cut s.above).removed ≠ [])
    (hplanned : replacement plans (s.spot mode.cut (flat ss₁)) ≠ []) :
    mode = .replace ∧ (mode.cut s.above).lower = [] ∧
      Outdated b ds (flat ss₁ ++ (mode.cut s.above).upper) (mode.cut s.above).removed := by
  obtain ⟨hupper, hsame, hlower⟩ := hlayout.cut_eq ss₁ s ss₂ hss
  obtain ⟨rfl, hdoc⟩ := Mode.removed_ne_nil (hsame ▸ hremoved)
  obtain ⟨-, hcut, hnil⟩ := Mode.cut_replace_of_documents hdoc
  rw [hlower] at hnil
  refine ⟨rfl, hnil, fun line hline => ?_, ?_⟩
  · rw [← hsame, hcut, List.mem_append] at hline
    refine hline.imp (fun h => ?_) fun h => (split_self _).isBlank_of_mem line h
    exact (split_self _).isComment_of_mem line ((List.dropWhile_sublist _).subset h)
  · obtain ⟨line, hline⟩ := List.exists_mem_of_ne_nil _ hplanned
    obtain ⟨p, hp, -⟩ := mem_groupLines hline
    obtain ⟨hp, hrange⟩ := List.mem_filter.1 hp
    obtain ⟨d, hd, k, hat, -⟩ := hlayout.plan_at_of_range hrun hss hp (of_decide_eq_true hrange)
    have hstands := hat.stands
    refine ⟨d, hd, ?_, ?_⟩
    · obtain ⟨run, hfound, -⟩ := documentationAbove?_of_documents (split_self _)
        hstands.above_lineFeed_notMem s.line (flat ss₂ ++ below) hdoc
      rw [hstands.lineOf_eq, hstands.text, hfound]
      rfl
    · rw [hstands.lineOf_eq]
      conv_lhs => rw [(Mode.replace.cut s.above).eq, hnil, List.append_nil, ← List.append_assoc]

/-- A stanza is edited by putting in comments and taking out what is outdated. -/
theorem edits_above {ss₁ : List Stanza} {s : Stanza} {ss₂ : List Stanza}
    (hss : ss = ss₁ ++ s :: ss₂) {rest out : List Text}
    (h : Edits (fun above cs => mode = .replace ∧ Outdated b ds above cs) (flat ss₁ ++ s.above)
      rest out) :
    Edits (fun above cs => mode = .replace ∧ Outdated b ds above cs) (flat ss₁) (s.above ++ rest)
      ((s.edited mode.cut b.source.text plans (flat ss₁)).above ++ out) := by
  rw [edited, withLines]
  split
  · exact Edits.keepAll s.above h
  · rename_i hnew
    have hcut := (mode.cut s.above).eq
    have hplanned : replacement plans (s.spot mode.cut (flat ss₁)) ≠ [] :=
      fun hnil => hnew (by rw [hnil]; rfl)
    have hcomment : ∀ line ∈ (replacement plans (s.spot mode.cut (flat ss₁))).map
        (· ++ b.source.text.ending), isComment line := by
      intro line hline
      obtain ⟨m, hm, rfl⟩ := List.mem_map.1 hline
      exact isComment_append (hlayout.isComment_of_mem_replacement hrun hm) _
    -- What is cut out is dropped below the new lines, and it is outdated.
    have hlower : Edits (fun above cs => mode = .replace ∧ Outdated b ds above cs)
        (flat ss₁ ++ (mode.cut s.above).upper)
        ((mode.cut s.above).removed ++ ((mode.cut s.above).lower ++ rest))
        ((mode.cut s.above).lower ++ out) := by
      by_cases hremoved : (mode.cut s.above).removed = []
      · rw [hremoved, List.append_nil] at hcut
        rw [hcut, ← List.append_assoc] at h
        rw [hremoved, List.nil_append]
        exact Edits.keepAll _ h
      · obtain ⟨hmode, hnil, houtdated⟩ := hlayout.outdated_of_removed hrun hss hremoved hplanned
        rw [hnil, List.append_nil] at hcut
        rw [hcut, ← List.append_assoc] at h
        rw [hnil, List.nil_append, List.nil_append]
        exact Edits.drop ⟨hmode, houtdated⟩ h
    have hwhole := Edits.keepAll (mode.cut s.above).upper (Edits.insertAll hcomment hlower)
    conv_lhs => rw [hcut]
    simpa only [List.append_assoc] using hwhole

/-- The stanzas from some place on, edited the same way. -/
theorem edits_from {ss₁ ss₂ : List Stanza} (hss : ss = ss₁ ++ ss₂) (hne : flat ss₂ ++ below ≠ []) :
    Edits (fun above cs => mode = .replace ∧ Outdated b ds above cs) (flat ss₁) (flat ss₂ ++ below)
      (flat (editedAll mode.cut b.source.text plans (flat ss₁) ss₂) ++ below) := by
  induction ss₂ generalizing ss₁ with
  | nil => exact Edits.refl hne
  | cons s ss₂ ih =>
      have hrest := @ih (ss₁ ++ [s]) (by rw [hss, List.append_assoc]; rfl)
      rw [flat_append, flat_cons, flat_nil, List.append_nil] at hrest
      have hline : Edits (fun above cs => mode = .replace ∧ Outdated b ds above cs)
          (flat ss₁ ++ s.above) (s.line :: (flat ss₂ ++ below))
          (s.line ::
            (flat (editedAll mode.cut b.source.text plans (flat ss₁ ++ s.all) ss₂) ++ below)) := by
        refine Edits.keep_or_last ?_
        by_cases hnil : flat ss₂ ++ below = []
        · obtain ⟨hflat, rfl⟩ := List.append_eq_nil_iff.1 hnil
          cases ss₂ with
          | nil => exact Or.inl ⟨rfl, rfl⟩
          | cons t ss₂ => simp [all] at hflat
        · rw [List.append_assoc]
          exact Or.inr (hrest hnil)
      have hstanza := hlayout.edits_above hrun hss hline
      simpa only [editedAll, flat_cons, all, line_edited, List.append_assoc, List.cons_append,
        List.nil_append] using hstanza

end Layout

/-- **Code is never touched.**  With every definition on a line of code and no line feed in a new
line, the lines of code stay as they are.  Inserting and merging only put in comment lines;
replacing also takes out comments and blank lines directly above a documented definition. -/
theorem planAll_keeps_code {b : Builder} {mode : Mode} {ds : List Definition} {l l' : Lookups}
    {plans : List Plan} (hds : ∀ d ∈ ds, isCode (lineWith b d))
    (hrun : (planAll b mode ds).run.run l = (.ok plans, l'))
    (hlf : ∀ p ∈ plans, ∀ line ∈ p.lines, Sym.lineFeed ∉ line) :
    (apply b.source.text plans).lines.filter isCode = b.source.text.lines.filter isCode ∧
      (mode ≠ .replace → Inserts b.source.text (apply b.source.text plans)) ∧
      (mode = .replace →
        Edits (Outdated b ds) [] b.source.text.lines (apply b.source.text plans).lines) := by
  obtain ⟨ss, below, hlayout, -, -⟩ := exists_layout b mode hds
  have hplanned := planEach_eq_ok_iff.1 hrun
  have hedits : Edits (fun above cs => mode = .replace ∧ Outdated b ds above cs) []
      b.source.text.lines (apply b.source.text plans).lines := by
    have hne := lines_ne_nil b.source.text
    rw [hlayout.lines_eq] at hne
    rw [hlayout.lines_apply hplanned hlf, hlayout.lines_eq]
    exact hlayout.edits_from hplanned (List.nil_append ss).symm hne
  refine ⟨hedits.filter_isCode ?_, fun hmode => ?_, fun hmode => ?_⟩
  · -- What is taken away is documentation or blank, so no code.
    rintro above cs ⟨-, houtdated⟩ line hline
    exact isCode_eq_false (houtdated.1 line hline)
  · -- Only replacing takes anything away.
    have hinserts := hedits.inserts (fun _ _ h => hmode h.1) fun line hline =>
      lineFeed_notMem_of_mem_lines hline
    rwa [ofLines_lines, ofLines_lines] at hinserts
  · subst hmode
    have heq : (fun above cs => Mode.replace = .replace ∧ Outdated b ds above cs) =
        Outdated b ds := by
      funext above cs
      exact propext (and_iff_right rfl)
    rwa [heq] at hedits

/-- A method with documentation and a blank line below it. -/
def documentedGo : Builder :=
  plainBuilder "# @return [Text]\n\ndef go\nend\n"

/-- The plan that renews the documentation of the method. -/
def renewGo : Plan where
  start := 0
  stop := 18
  lines := bareBlock
  indent := []

/-- Replacing takes the comment and the blank line out and leaves the code. -/
theorem planAll_keeps_code_replacing :
    (planAll documentedGo .replace [bareMethod "go" 18]).run.run {} = (.ok [renewGo], {}) ∧
      (apply documentedGo.source.text [renewGo]).lines.filter isCode = [("def go" : Text), "end"] ∧
      Edits (Outdated documentedGo [bareMethod "go" 18]) [] documentedGo.source.text.lines
        (apply documentedGo.source.text [renewGo]).lines := by
  have hrun : (planAll documentedGo .replace [bareMethod "go" 18]).run.run {} =
      (.ok [renewGo], {}) := by
    rw [planAll_singleton]
    rfl
  obtain ⟨hcode, -, hedits⟩ := planAll_keeps_code (by decide) hrun (by decide)
  exact ⟨hrun, hcode.trans (by decide), hedits rfl⟩

end RubyDoc.Edit
