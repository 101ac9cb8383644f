import RubyDoc.Proofs.Edit.Layout

/-!
# Line endings are kept

New lines end as the text does, so carrying out plans leaves a text with one kind of line ending
with that kind (`planAll_keeps_endings`): where a carriage return stands before every line feed, it
still does, and where it stands before none, it still does not.  A text that mixes both endings is
a text with carriage returns, and its new lines get them.
-/

namespace RubyDoc

namespace Text

/-- Does a carriage return stand before every line feed of the text? -/
def HasLongEndings (t : Text) : Prop :=
  ∀ before after, t = before ++ Sym.lineFeed :: after →
    before.getLast? = some Sym.carriageReturn

theorem hasLongEndings_of_lineFeed_notMem {l : Text} (hl : Sym.lineFeed ∉ l) :
    HasLongEndings l := by
  rintro before after rfl
  exact absurd (by simp) hl

theorem hasLongEndings_append {l : Text} (hl : Sym.lineFeed ∉ l) (t : Text) :
    HasLongEndings (l ++ Sym.lineFeed :: t) ↔
      l.getLast? = some Sym.carriageReturn ∧ HasLongEndings t := by
  constructor
  · intro h
    refine ⟨h l t rfl, ?_⟩
    rintro before after rfl
    have hlast := h (l ++ Sym.lineFeed :: before) after (by simp)
    rcases List.eq_nil_or_concat' before with rfl | ⟨front, s, rfl⟩
    · -- An empty line would have the line feed above it before its own.
      simp [Sym.lineFeed, Sym.carriageReturn] at hlast
    · rw [← List.cons_append, ← List.append_assoc, List.getLast?_concat] at hlast
      rw [List.getLast?_concat, hlast]
  · rintro ⟨hlast, ht⟩ before after heq
    rcases List.append_eq_append_iff.1 heq with ⟨more, rfl, hmore⟩ | ⟨more, rfl, hmore⟩
    · cases more with
      | nil => rwa [List.append_nil]
      | cons s more =>
          obtain ⟨rfl, rfl⟩ := List.cons.inj hmore
          have hreturn := ht more after rfl
          obtain ⟨front, rfl⟩ := List.getLast?_eq_some_iff.1 hreturn
          rw [← List.cons_append, ← List.append_assoc, List.getLast?_concat]
    · cases more with
      | nil => rwa [List.append_nil] at hlast
      | cons s more =>
          obtain ⟨rfl, -⟩ := List.cons.inj hmore
          exact absurd (by simp) hl

/-- Every line feed has its carriage return iff every closed line ends in one. -/
theorem hasLongEndings_ofLines {ls : List Text} (hls : ∀ l ∈ ls, Sym.lineFeed ∉ l) :
    HasLongEndings (ofLines ls) ↔
      ∀ l ∈ ls.dropLast, l.getLast? = some Sym.carriageReturn := by
  induction ls with
  | nil =>
      refine iff_of_true (hasLongEndings_of_lineFeed_notMem List.not_mem_nil) ?_
      exact fun l hl => absurd hl List.not_mem_nil
  | cons l ls ih =>
      have hl := hls l List.mem_cons_self
      cases ls with
      | nil =>
          refine iff_of_true (hasLongEndings_of_lineFeed_notMem hl) ?_
          exact fun m hm => absurd hm List.not_mem_nil
      | cons m ls =>
          rw [ofLines_cons l (by simp), hasLongEndings_append hl,
            ih fun k hk => hls k (List.mem_cons_of_mem l hk), List.dropLast_cons_cons,
            List.forall_mem_cons]

theorem hasLongEndings_iff (t : Text) :
    HasLongEndings t ↔ ∀ l ∈ t.lines.dropLast, l.getLast? = some Sym.carriageReturn := by
  have h := hasLongEndings_ofLines fun l (hl : l ∈ t.lines) => lineFeed_notMem_of_mem_lines hl
  rwa [ofLines_lines] at h

/-- A text with a line feed has a closed line. -/
theorem dropLast_lines_ne_nil {t : Text} (h : Sym.lineFeed ∈ t) : t.lines.dropLast ≠ [] := by
  intro hnil
  obtain ⟨front, line, hlines⟩ := List.eq_nil_or_concat' t.lines |>.resolve_left (lines_ne_nil t)
  rw [hlines, List.dropLast_concat] at hnil
  subst hnil
  have hline : line ∈ t.lines := by
    rw [hlines]
    exact List.mem_singleton_self line
  rw [← ofLines_lines t, hlines] at h
  exact lineFeed_notMem_of_mem_lines hline h

/-- New lines of a text with carriage returns before its line feeds get one too. -/
theorem HasLongEndings.ending_eq {t : Text} (h : HasLongEndings t) (hfeed : Sym.lineFeed ∈ t) :
    t.ending = [Sym.carriageReturn] := by
  obtain ⟨line, hline⟩ := List.exists_mem_of_ne_nil _ (dropLast_lines_ne_nil hfeed)
  refine (Text.ending_eq t).resolve_left fun hnil => ?_
  exact (ending_eq_nil_iff t).1 hnil line hline ((hasLongEndings_iff t).1 h line hline)

end Text

namespace Edit

open Text Comment Block Outline Signature Stanza

namespace Layout

variable {b : Builder} {mode : Mode} {ds : List Definition} {ss : List Stanza} {below : List Text}
  {plans : List Plan} {l l' : Lookups} (hlayout : Layout b mode ds ss below)
  (hrun : PlanRun b mode (inTextOrder ds) l plans l')
include hlayout hrun

/-- Where the closed lines of the edited text come from. -/
theorem mem_dropLast_lines_apply (hlf : ∀ p ∈ plans, ∀ line ∈ p.lines, Sym.lineFeed ∉ line)
    {line : Text} (h : line ∈ (apply b.source.text plans).lines.dropLast) :
    line ∈ b.source.text.lines.dropLast ∨
      ∃ r, ∃ new ∈ replacement plans r, line = new ++ b.source.text.ending := by
  rw [hlayout.lines_apply hrun hlf] at h
  rw [hlayout.lines_eq]
  exact mem_dropLast_editedAll h

/-- If neither a line of the text nor a rendered one ends in a carriage return, no new line does. -/
theorem no_return_of_mem_replacement (hending : b.source.text.ending = [])
    (hnone : ∀ p ∈ plans, ∀ line ∈ p.lines, line.getLast? ≠ some Sym.carriageReturn) {r : Range}
    {new : Text} (hnew : new ∈ replacement plans r) : new.getLast? ≠ some Sym.carriageReturn := by
  obtain ⟨p, hp, hsource⟩ := mem_groupLines hnew
  have hp := List.mem_of_mem_filter hp
  obtain ⟨d, -, ss₁, s, ss₂, k, hat, -, hplan⟩ := hlayout.exists_plan_at hrun hp
  obtain ⟨-, rfl⟩ := Mode.planWith_eq_some hplan
  rcases hsource with hsource | rfl | hsource
  · exact hnone _ hp new hsource
  · simp [Plan.separator, Sym.carriageReturn]
  · obtain ⟨m, hm, rfl⟩ := Mode.exists_of_mem_kept hsource
    -- A line that is kept stands above the line of the definition, so a line feed ends it.
    have hclosed : m ∈ b.source.text.lines.dropLast := by
      rw [hat.stands.lines_eq, List.dropLast_append_cons]
      exact List.mem_append_left _ (mem_of_mem_lastComment hm)
    have hlast := (ending_eq_nil_iff _).1 hending m hclosed
    rwa [withoutReturn_of_ne hlast]

end Layout

/-- **Line endings are kept.**  With every definition on a line of code and no line feed in a new
line: a text with a carriage return before every line feed stays such a text, and a text without
such a pair gets none from new lines that do not end in a carriage return themselves. -/
theorem planAll_keeps_endings {b : Builder} {mode : Mode} {ds : List Definition} {l l' : Lookups}
    {plans : List Plan} (hds : ∀ d ∈ ds, isCode (lineWith b d))
    (hrun : (planAll b mode ds).run.run l = (.ok plans, l'))
    (hlf : ∀ p ∈ plans, ∀ line ∈ p.lines, Sym.lineFeed ∉ line) :
    (Sym.lineFeed ∈ b.source.text → HasLongEndings b.source.text →
      HasLongEndings (apply b.source.text plans)) ∧
    (b.source.text.contains "\r\n" = false →
      (∀ p ∈ plans, ∀ line ∈ p.lines, line.getLast? ≠ some Sym.carriageReturn) →
      (apply b.source.text plans).contains "\r\n" = false) := by
  obtain ⟨ss, below, hlayout, -, -⟩ := exists_layout b mode hds
  have hplanned := planEach_eq_ok_iff.1 hrun
  -- A line of the result is an old one, or a new one with the ending of the text.
  refine ⟨fun hfeed hlong => ?_, fun hshort hnone => ?_⟩
  · rw [hasLongEndings_iff]
    intro line hline
    rcases hlayout.mem_dropLast_lines_apply hplanned hlf hline with hold | ⟨r, new, -, rfl⟩
    · exact (hasLongEndings_iff _).1 hlong line hold
    · rw [hlong.ending_eq hfeed, List.getLast?_concat]
  · have hending := (contains_crlf_eq_false_iff _).1 hshort
    rw [contains_crlf_eq_false_iff, ending_eq_nil_iff]
    intro line hline
    rcases hlayout.mem_dropLast_lines_apply hplanned hlf hline with hold | ⟨r, new, hnew, rfl⟩
    · exact (ending_eq_nil_iff _).1 hending line hold
    · rw [hending, List.append_nil]
      exact hlayout.no_return_of_mem_replacement hplanned hending hnone hnew

/-- A method with documentation and a directive in it; the lines end in `e`. -/
def switchedGoWith (e : Text) : Builder :=
  plainBuilder (("# @return [Text]" : Text) ++ e ++ "# :nocov:" ++ e ++ "def go" ++ e ++ "end" ++ e)

/-- The plan that renews the documentation up to an offset and writes the directive again. -/
def renewSwitched (stop : Nat) : Plan where
  start := 0
  stop := stop
  lines := bareBlock
  indent := []
  kept := ["# :nocov:"]

/-- Replacing keeps the endings of either kind, those of the directive included. -/
theorem planAll_keeps_endings_replacing :
    ((planAll (switchedGoWith "\r\n") .replace [bareMethod "go" 29]).run.run {} =
        (.ok [renewSwitched 29], {}) ∧
      HasLongEndings (switchedGoWith "\r\n").source.text ∧
      HasLongEndings (apply (switchedGoWith "\r\n").source.text [renewSwitched 29])) ∧
    (planAll (switchedGoWith "\n") .replace [bareMethod "go" 27]).run.run {} =
        (.ok [renewSwitched 27], {}) ∧
      (switchedGoWith "\n").source.text.contains "\r\n" = false ∧
      (apply (switchedGoWith "\n").source.text [renewSwitched 27]).contains "\r\n" = false := by
  have hlongRun : (planAll (switchedGoWith "\r\n") .replace [bareMethod "go" 29]).run.run {} =
      (.ok [renewSwitched 29], {}) := by
    rw [planAll_singleton]
    rfl
  have hshortRun : (planAll (switchedGoWith "\n") .replace [bareMethod "go" 27]).run.run {} =
      (.ok [renewSwitched 27], {}) := by
    rw [planAll_singleton]
    rfl
  have hlong : HasLongEndings (switchedGoWith "\r\n").source.text :=
    (hasLongEndings_iff _).2 (by decide)
  have hshort : (switchedGoWith "\n").source.text.contains "\r\n" = false := by decide
  obtain ⟨hkeeps, -⟩ := planAll_keeps_endings (by decide) hlongRun (by decide)
  obtain ⟨-, hkeeps'⟩ := planAll_keeps_endings (by decide) hshortRun (by decide)
  exact ⟨⟨hlongRun, hlong, hkeeps (by decide) hlong⟩, hshortRun, hshort, hkeeps' hshort (by decide)⟩

end Edit

end RubyDoc
