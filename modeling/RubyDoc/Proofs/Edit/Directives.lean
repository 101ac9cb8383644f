import RubyDoc.Proofs.Edit.ReplaceAgain
import RubyDoc.Proofs.Edit.Untouched

/-!
# Directives are kept

Carrying out plans loses no directive to a tool, and neither repeats one nor moves one past another
(`planAll_keeps_directives`).  Only replacing takes lines out.  The leading directives of a comment
are not among them, and each later one is written again once, however many definitions stand on the
line below.  New lines that are directives themselves would come between, so there are none.
-/

namespace RubyDoc.Edit

open Text Comment Block Outline Signature Stanza

theorem isDirective_of_blank {line : Text} (h : line.isBlank) : isDirective line = false := by
  have hnil : line.trimLeft = [] := List.dropWhile_eq_nil_iff.2 (List.all_eq_true.1 h)
  rw [isDirective, content?, afterSign?, hnil]
  rfl

/-- What a mode cuts out has just the directives that it writes again. -/
theorem Mode.directivesOf_removed (mode : Mode) (ls : List Text) :
    directivesOf (mode.cut ls).removed = mode.kept (lastComment ls) := by
  -- Only replaced documentation is cut out.
  by_cases hremoved : (mode.cut ls).removed = []
  · rw [hremoved, directivesOf_nil]
    cases mode with
    | insert => rfl
    | merge => rfl
    | replace =>
        cases hdoc : documents (lastComment ls) with
        | false => rw [kept, hdoc, if_neg Bool.false_ne_true]
        | true =>
            obtain ⟨-, hcut, -⟩ := cut_replace_of_documents hdoc
            rw [hremoved] at hcut
            rw [kept, hdoc, if_pos rfl, innerDirectives, (List.append_eq_nil_iff.1 hcut.symm).1]
            rfl
  · obtain ⟨rfl, hdoc⟩ := removed_ne_nil hremoved
    have hgap : directivesOf (gapBelow ls) = [] := by
      refine directivesOf_eq_nil fun line hline => isDirective_of_blank ?_
      rw [isBlank_withoutReturn]
      exact (split_self ls).isBlank_of_mem line hline
    rw [(cut_replace_of_documents hdoc).2.1, directivesOf_append, hgap, List.append_nil, kept,
      if_pos hdoc]
    rfl

namespace Layout

variable {b : Builder} {mode : Mode} {ds : List Definition} {ss : List Stanza} {below : List Text}
  {plans : List Plan} {l l' : Lookups} (hlayout : Layout b mode ds ss below)
  (hcode : ∀ s ∈ ss, isCode s.line) (hrun : PlanRun b mode (inTextOrder ds) l plans l')
  (hdirective : ∀ p ∈ plans, ∀ line ∈ p.lines, isDirective line = false)
include hlayout hcode hrun hdirective

/-- The new lines above a stanza have the directives of the lines that they replace. -/
theorem directivesOf_replacement {ss₁ : List Stanza} {s : Stanza} {ss₂ : List Stanza}
    (hss : ss = ss₁ ++ s :: ss₂)
    (hplanned : replacement plans (s.spot mode.cut (flat ss₁)) ≠ []) :
    directivesOf
        ((replacement plans (s.spot mode.cut (flat ss₁))).map (· ++ b.source.text.ending)) =
      directivesOf (mode.cut s.above).removed := by
  have hends := hlayout.ends_above hss
  have hne : plans.filter (fun p => p.range = s.spot mode.cut (flat ss₁)) ≠ [] := by
    intro hnil
    rw [replacement, hnil] at hplanned
    exact hplanned rfl
  have hfields : ∀ p ∈ plans.filter (fun p => p.range = s.spot mode.cut (flat ss₁)), p ∈ plans ∧
      p.indent = s.indent ∧ p.kept = mode.kept (lastComment s.above) := by
    intro p hp
    obtain ⟨hp, hrange⟩ := List.mem_filter.1 hp
    obtain ⟨-, hindent, -, hkept⟩ :=
      hlayout.fields_of_range hrun hcode hss hp (of_decide_eq_true hrange)
    exact ⟨hp, hindent, hkept⟩
  -- Rendered lines are no directives, so all directives are among the lines that are kept.
  obtain ⟨new, hgroup, hnew⟩ := groupLines_eq_append_kept hne fun p hp => (hfields p hp).2.2
  have hnone : ∀ line ∈ new, isDirective line = false := by
    intro line hline
    obtain ⟨p, hp, hline | rfl⟩ := hnew line hline
    · exact hdirective p (hfields p hp).1 line hline
    · rw [Plan.separator, (hfields p hp).2.1]
      exact isDirective_separator s.isIndentSym_of_mem_indent
  rw [replacement, hgroup, List.map_append, directivesOf_append, hends.directivesOf_new hnone,
    hends.directivesOf_kept, List.nil_append, Mode.directivesOf_removed]

/-- An edited stanza has the directives of the stanza. -/
theorem directivesOf_edited {ss₁ : List Stanza} {s : Stanza} {ss₂ : List Stanza}
    (hss : ss = ss₁ ++ s :: ss₂) :
    directivesOf (s.edited mode.cut b.source.text plans (flat ss₁)).all = directivesOf s.all := by
  rw [all, all, directivesOf_append, directivesOf_append, line_edited, edited, withLines]
  split
  · rfl
  · rename_i hnew
    have hplanned : replacement plans (s.spot mode.cut (flat ss₁)) ≠ [] :=
      fun hnil => hnew (by rw [hnil]; rfl)
    have hsame := hlayout.directivesOf_replacement hcode hrun hdirective hss hplanned
    conv_rhs => rw [(mode.cut s.above).eq]
    simp only [directivesOf_append, hsame]

/-- So do all stanzas from some place on. -/
theorem directivesOf_editedAll {ss₁ ss₂ : List Stanza} (hss : ss = ss₁ ++ ss₂) :
    directivesOf (flat (editedAll mode.cut b.source.text plans (flat ss₁) ss₂)) =
      directivesOf (flat ss₂) := by
  induction ss₂ generalizing ss₁ with
  | nil => rfl
  | cons s ss₂ ih =>
      have hstanza := hlayout.directivesOf_edited hcode hrun hdirective hss
      have hrest := @ih (ss₁ ++ [s]) (by rw [hss, List.append_assoc]; rfl)
      rw [flat_append, flat_cons, flat_nil, List.append_nil] at hrest
      rw [editedAll, flat_cons, flat_cons, directivesOf_append, directivesOf_append, hstanza, hrest]

end Layout

/-- **No directive is lost, repeated or moved.**  With every definition on a line of code, no line
feed in a new line and no directive among the new lines, the directives of the text are the same
before and after. -/
theorem planAll_keeps_directives {b : Builder} {mode : Mode} {ds : List Definition}
    {l l' : Lookups} {plans : List Plan} (hds : ∀ d ∈ ds, isCode (lineWith b d))
    (hrun : (planAll b mode ds).run.run l = (.ok plans, l'))
    (hlf : ∀ p ∈ plans, ∀ line ∈ p.lines, Sym.lineFeed ∉ line)
    (hdirective : ∀ p ∈ plans, ∀ line ∈ p.lines, isDirective line = false) :
    directivesOf (apply b.source.text plans).lines = directivesOf b.source.text.lines := by
  obtain ⟨ss, below, hlayout, hss, -⟩ := exists_layout b mode hds
  have hplanned := planEach_eq_ok_iff.1 hrun
  have hall := hlayout.directivesOf_editedAll (fun s hs => (hss s hs).1) hplanned hdirective
    (List.nil_append ss).symm
  rw [flat_nil] at hall
  rw [hlayout.lines_apply hplanned hlf, hlayout.lines_eq, directivesOf_append, directivesOf_append,
    hall]

/-- A method with a directive above its documentation and one in it. -/
def switchedGo : Builder :=
  plainBuilder "# rubocop:disable all\n# @return [Text]\n# :nocov:\n\ndef go\nend\n"

/-- The plan that renews the documentation and writes the inner directive again. -/
def renewSwitchedGo : Plan where
  start := 22
  stop := 50
  lines := bareBlock
  indent := []
  kept := ["# :nocov:"]

/-- Replacing leaves the first directive where it is and writes the second one below the block. -/
theorem planAll_keeps_directives_replacing :
    (planAll switchedGo .replace [bareMethod "go" 50]).run.run {} = (.ok [renewSwitchedGo], {}) ∧
      directivesOf (apply switchedGo.source.text [renewSwitchedGo]).lines =
        [("# rubocop:disable all" : Text), "# :nocov:"] := by
  have hrun : (planAll switchedGo .replace [bareMethod "go" 50]).run.run {} =
      (.ok [renewSwitchedGo], {}) := by
    rw [planAll_singleton]
    rfl
  have hsame := planAll_keeps_directives (by decide) hrun (by decide) (by decide)
  exact ⟨hrun, hsame.trans (by decide)⟩

end RubyDoc.Edit
