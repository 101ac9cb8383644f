import RubyDoc.Edit.Planning
import RubyDoc.Proofs.Block.Builder
import RubyDoc.Proofs.Comment.Above
import RubyDoc.Proofs.Edit.Stanza

/-!
# What is planned for one definition

A definition stands on a line of the text, and its plan depends on the lines above that line only
through the comment they end in and the blank lines after it.  Each mode cuts these lines at one
place and renders some lines for it; a plan replaces the removed part of the cut by the rendered
lines (`Stands.run_plan`).  Definitions on one line share the cut, so their plans share the range.
-/

namespace RubyDoc.Edit

open Text Comment Block Outline Signature

/-- A definition stands on the line `l`, with the lines `ls` above it and the lines `below` below
it. -/
structure Stands (b : Builder) (d : Definition) (ls : List Text) (l : Text) (below : List Text) :
    Prop where
  lines_eq : b.source.text.lines = ls ++ l :: below
  liesIn : LiesIn (b.source.startOf d.node) ls l below

/-- The line of the text that a definition stands on. -/
def lineWith (b : Builder) (d : Definition) : Text :=
  lineAt b.source.text (b.source.startOf d.node)

theorem exists_stands (b : Builder) (d : Definition) : ∃ ls l below, Stands b d ls l below := by
  obtain ⟨ls, l, below, heq, hlies⟩ :=
    exists_liesIn (b.source.startOf d.node) (lines_ne_nil b.source.text)
  exact ⟨ls, l, below, heq, hlies⟩

/-- The lines that a mode renders for a definition below the comment `comment`. -/
def rendered (b : Builder) (mode : Mode) (d : Definition) (comment : List Text) (indent : Text) :
    StateM Lookups (List Text) :=
  match mode with
  | .insert => if comment = [] then b.block d indent else pure []
  | .replace => b.block d indent
  | .merge =>
      if documents comment then b.additions d (comment.map withoutReturn) indent
      else b.block d indent

/-- Builders that differ in what they filter and look up render the same lines as long as their
lookups agree. -/
theorem rendered_parallel {b : Builder} {d d' : Definition} {src' : Syntax.Source}
    (f : Settings.Filter) {provider' : Option Provider}
    (hboth : provider'.isSome = b.provider.isSome) (h : Alike b.settings b.source d src' d')
    (mode : Mode) (comment : List Text) (indent : Text) :
    Lookups.Parallel b.provider provider' (rendered b mode d comment indent)
      (rendered (b.varied src' f provider') mode d' comment indent) := by
  cases mode with
  | insert =>
      rw [rendered, rendered]
      split
      · exact Builder.block_parallel f hboth h indent
      · exact .pure []
  | replace => exact Builder.block_parallel f hboth h indent
  | merge =>
      rw [rendered, rendered]
      split
      · exact Builder.additions_parallel f hboth h _ indent
      · exact Builder.block_parallel f hboth h indent

theorem signed_of_mem_rendered {b : Builder} {mode : Mode} {d : Definition} {comment : List Text}
    {indent : Text} {k : Lookups} {line : Text}
    (h : line ∈ ((rendered b mode d comment indent).run k).1) :
    ∃ rest, line = indent ++ .char '#' :: rest := by
  cases mode with
  | insert =>
      rw [rendered] at h
      split at h
      · exact signed_of_mem_block h
      · cases h
  | replace => exact signed_of_mem_block h
  | merge =>
      rw [rendered] at h
      split at h
      · exact signed_of_mem_additions h
      · exact signed_of_mem_block h

namespace Mode

/-- How a mode cuts the lines above a definition. -/
def cut (mode : Mode) (ls : List Text) : Cut ls :=
  match mode with
  | .insert => ⟨ls, [], [], by simp⟩
  | .replace =>
      if documents (lastComment ls) then
        ⟨beforeComment ls ++ leadingDirectives (lastComment ls),
          body (lastComment ls) ++ gapBelow ls, [], by
            conv_lhs => rw [(split_self ls).eq, ← leadingDirectives_append_body (lastComment ls)]
            simp only [List.append_assoc, List.append_nil]⟩
      else ⟨ls, [], [], by simp⟩
  | .merge =>
      if documents (lastComment ls) then
        ⟨beforeComment ls ++ lastComment ls, [], gapBelow ls, by
          rw [List.append_nil]
          exact (split_self ls).eq⟩
      else if hgap : gapBelow ls = [] then
        ⟨beforeComment ls, [], lastComment ls, by
          conv_lhs => rw [(split_self ls).eq, hgap]
          simp only [List.append_nil]⟩
      else ⟨ls, [], [], by simp⟩

section Cut

variable {ls : List Text}

theorem cut_replace_of_documents (h : documents (lastComment ls)) :
    (replace.cut ls).upper = beforeComment ls ++ leadingDirectives (lastComment ls) ∧
      (replace.cut ls).removed = body (lastComment ls) ++ gapBelow ls ∧
      (replace.cut ls).lower = [] := by
  rw [cut, if_pos h]
  exact ⟨rfl, rfl, rfl⟩

theorem cut_replace_of_not_documents (h : documents (lastComment ls) = false) :
    (replace.cut ls).upper = ls ∧ (replace.cut ls).removed = [] ∧ (replace.cut ls).lower = [] := by
  rw [cut, h, if_neg Bool.false_ne_true]
  exact ⟨rfl, rfl, rfl⟩

theorem cut_merge_of_documents (h : documents (lastComment ls)) :
    (merge.cut ls).upper = beforeComment ls ++ lastComment ls ∧ (merge.cut ls).removed = [] ∧
      (merge.cut ls).lower = gapBelow ls := by
  rw [cut, if_pos h]
  exact ⟨rfl, rfl, rfl⟩

theorem cut_merge_of_touching (h : documents (lastComment ls) = false) (hgap : gapBelow ls = []) :
    (merge.cut ls).upper = beforeComment ls ∧ (merge.cut ls).removed = [] ∧
      (merge.cut ls).lower = lastComment ls := by
  rw [cut, h, if_neg Bool.false_ne_true, dif_pos hgap]
  exact ⟨rfl, rfl, rfl⟩

theorem cut_merge_of_apart (h : documents (lastComment ls) = false) (hgap : gapBelow ls ≠ []) :
    (merge.cut ls).upper = ls ∧ (merge.cut ls).removed = [] ∧ (merge.cut ls).lower = [] := by
  rw [cut, h, if_neg Bool.false_ne_true, dif_neg hgap]
  exact ⟨rfl, rfl, rfl⟩

end Cut

/-- Do the lines of a plan join the comment above? -/
def joins (mode : Mode) (comment : List Text) : Bool :=
  match mode with
  | .merge => documents comment
  | _ => false

/-- The lines of the comment above that a plan writes again. -/
def kept (mode : Mode) (comment : List Text) : List Text :=
  match mode with
  | .replace => if documents comment then innerDirectives comment else []
  | _ => []

/-- The plan with the lines `lines`; no lines, no plan. -/
def planWith (mode : Mode) (ls : List Text) (indent : Text) (lines : List Text) : Option Plan :=
  if lines.isEmpty then none
  else some
    { start := (closed (mode.cut ls).upper).length
      stop := (closed ((mode.cut ls).upper ++ (mode.cut ls).removed)).length
      lines, indent
      joins := mode.joins (lastComment ls)
      kept := mode.kept (lastComment ls) }

theorem planWith_eq_some {mode : Mode} {ls : List Text} {indent : Text} {lines : List Text}
    {p : Plan} (h : mode.planWith ls indent lines = some p) :
    lines ≠ [] ∧ p =
      { start := (closed (mode.cut ls).upper).length
        stop := (closed ((mode.cut ls).upper ++ (mode.cut ls).removed)).length
        lines, indent
        joins := mode.joins (lastComment ls)
        kept := mode.kept (lastComment ls) } := by
  rw [planWith] at h
  split at h
  · cases h
  · rename_i hne
    exact ⟨fun hnil => hne (by rw [hnil]; rfl), (Option.some.inj h).symm⟩

theorem planWith_ne_none {mode : Mode} {ls : List Text} {indent : Text} {lines : List Text}
    (h : lines ≠ []) : mode.planWith ls indent lines ≠ none := by
  rw [planWith, if_neg (by simpa using h)]
  exact Option.some_ne_none _

theorem exists_of_mem_kept {mode : Mode} {comment : List Text} {line : Text}
    (h : line ∈ mode.kept comment) : ∃ m ∈ comment, line = m.withoutReturn := by
  cases mode with
  | insert => cases h
  | merge => cases h
  | replace =>
      rw [kept] at h
      split at h
      · obtain ⟨m, hm, rfl⟩ := List.mem_map.1 (List.mem_of_mem_filter h)
        exact ⟨m, (List.dropWhile_sublist _).subset hm, rfl⟩
      · cases h

/-- Lines below a line of code, or at the top, are cut as if nothing were above them. -/
theorem cut_append (mode : Mode) {pre : List Text}
    (hpre : ∀ l, pre.getLast? = some l → isCode l) (ls : List Text) :
    (mode.cut (pre ++ ls)).upper = pre ++ (mode.cut ls).upper ∧
      (mode.cut (pre ++ ls)).removed = (mode.cut ls).removed ∧
      (mode.cut (pre ++ ls)).lower = (mode.cut ls).lower := by
  obtain ⟨hbefore, hcomment, hgap⟩ := (split_append hpre ls).eq_parts
  cases mode with
  | insert => exact ⟨rfl, rfl, rfl⟩
  | replace =>
      simp only [cut, hbefore, hcomment, hgap]
      split
      · exact ⟨List.append_assoc _ _ _, rfl, rfl⟩
      · exact ⟨rfl, rfl, rfl⟩
  | merge =>
      simp only [cut, hbefore, hcomment, hgap]
      split
      · exact ⟨List.append_assoc _ _ _, rfl, rfl⟩
      · split <;> exact ⟨rfl, rfl, rfl⟩

end Mode

/-- Without lines there is no plan. -/
theorem run_planUnlessEmpty (x : StateM Lookups (List Text)) (f : List Text → Plan) (k : Lookups) :
    (x >>= fun lines => if lines.isEmpty then pure none else pure (some (f lines))).run k =
      (if (x.run k).1.isEmpty then none else some (f (x.run k).1), (x.run k).2) := by
  show (if (x.run k).1.isEmpty then pure none
    else pure (some (f (x.run k).1)) : StateM Lookups (Option Plan)).run (x.run k).2 = _
  split <;> rfl

namespace Stands

variable {b : Builder} {d : Definition} {ls : List Text} {l : Text} {below : List Text}
  (h : Stands b d ls l below)
include h

theorem text : b.source.text = ofLines (ls ++ l :: below) := by
  rw [← h.lines_eq, ofLines_lines]

theorem lineFeed_notMem : ∀ m ∈ ls ++ l :: below, Sym.lineFeed ∉ m :=
  fun _ hm => lineFeed_notMem_of_mem_lines (h.lines_eq ▸ hm)

theorem lineWith_eq : lineWith b d = l := by
  rw [lineWith, h.text]
  exact h.liesIn.lineAt_eq (h.lineFeed_notMem l (by simp))

theorem lineOf_eq : lineOf b d = (closed ls).length := by
  rw [lineOf, h.text]
  exact h.liesIn.lineStart_eq (h.lineFeed_notMem l (by simp))

theorem indentAt_eq : b.source.text.indentAt (closed ls).length = l.takeWhile isIndentSym := by
  rw [h.text, indentAt_ofLines]

theorem above_lineFeed_notMem : ∀ m ∈ ls, Sym.lineFeed ∉ m :=
  fun m hm => h.lineFeed_notMem m (by simp [hm])

theorem runAbove?_eq : runAbove? b.source.text (closed ls).length =
    Run.ofLines? (closed (beforeComment ls)).length (lastComment ls) := by
  rw [h.text, runAbove?_ofLines (split_self ls) h.above_lineFeed_notMem]

theorem isSome_runAbove?_iff :
    (runAbove? b.source.text (closed ls).length).isSome ↔ lastComment ls ≠ [] := by
  rw [h.runAbove?_eq, Option.isSome_iff_ne_none, Ne, Run.ofLines?_eq_none_iff]

theorem run_planInsert (k : Lookups) : (planInsert b d).run k =
    let r := (rendered b .insert d (lastComment ls) (l.takeWhile isIndentSym)).run k
    (Mode.insert.planWith ls (l.takeWhile isIndentSym) r.1, r.2) := by
  simp only [planInsert, h.lineOf_eq, h.isSome_runAbove?_iff, h.indentAt_eq, rendered]
  by_cases hcomment : lastComment ls = []
  · rw [if_neg (not_not.2 hcomment), if_pos hcomment]
    simp only [Mode.planWith, Mode.cut, Mode.joins, Mode.kept, List.append_nil]
    rfl
  · rw [if_pos hcomment, if_neg hcomment]
    rfl

theorem run_planReplace (k : Lookups) : (planReplace b d).run k =
    let r := (rendered b .replace d (lastComment ls) (l.takeWhile isIndentSym)).run k
    (Mode.replace.planWith ls (l.takeWhile isIndentSym) r.1, r.2) := by
  have hremoval := removalAbove?_ofLines (split_self ls) h.above_lineFeed_notMem l below
  rw [← h.text] at hremoval
  simp only [planReplace, h.lineOf_eq, h.indentAt_eq, hremoval, rendered]
  cases hdoc : documents (lastComment ls) with
  | true =>
      obtain ⟨hupper, hremoved, -⟩ := Mode.cut_replace_of_documents hdoc
      -- The documentation and the gap are removed, so the range ends where the line starts.
      have hwhole : (Mode.replace.cut ls).upper ++ (Mode.replace.cut ls).removed = ls := by
        conv_rhs => rw [(split_self ls).eq, ← leadingDirectives_append_body (lastComment ls)]
        rw [hupper, hremoved]
        simp only [List.append_assoc]
      rw [if_pos rfl, Mode.planWith, hwhole, hupper, Mode.kept, hdoc, if_pos rfl]
      exact run_planUnlessEmpty _ _ k
  | false =>
      obtain ⟨hupper, hremoved, -⟩ := Mode.cut_replace_of_not_documents hdoc
      rw [if_neg Bool.false_ne_true, Mode.planWith, hupper, hremoved, Mode.kept, hdoc,
        if_neg Bool.false_ne_true, List.append_nil]
      exact run_planUnlessEmpty _ _ k

theorem run_planMerge (k : Lookups) : (planMerge b d).run k =
    let r := (rendered b .merge d (lastComment ls) (l.takeWhile isIndentSym)).run k
    (Mode.merge.planWith ls (l.takeWhile isIndentSym) r.1, r.2) := by
  simp only [planMerge, h.lineOf_eq, h.indentAt_eq, rendered]
  cases hdoc : documents (lastComment ls) with
  | true =>
      obtain ⟨run, hrun, htexts, hstop⟩ :=
        documentationAbove?_of_documents (split_self ls) h.above_lineFeed_notMem l below hdoc
      obtain ⟨hupper, hremoved, -⟩ := Mode.cut_merge_of_documents hdoc
      rw [← h.text] at hrun
      simp only [hrun, Mode.planWith, hupper, hremoved, Mode.joins, Mode.kept, hdoc, htexts, hstop,
        List.append_nil]
      rfl
  | false =>
      have hnone := documentationAbove?_of_not_documents (split_self ls) h.above_lineFeed_notMem l
        below hdoc
      have hplace := placeAbovePlain_ofLines (split_self ls) h.above_lineFeed_notMem l below
      rw [← h.text] at hnone hplace
      by_cases hgap : gapBelow ls = []
      · obtain ⟨hupper, hremoved, -⟩ := Mode.cut_merge_of_touching hdoc hgap
        simp only [hnone, hplace, if_pos hgap, Mode.planWith, hupper, hremoved, Mode.joins,
          Mode.kept, hdoc, List.append_nil]
        rfl
      · obtain ⟨hupper, hremoved, -⟩ := Mode.cut_merge_of_apart hdoc hgap
        simp only [hnone, hplace, if_neg hgap, Mode.planWith, hupper, hremoved, Mode.joins,
          Mode.kept, hdoc, List.append_nil]
        rfl

/-- **The plan for a definition**: the lines that the mode renders, in the place of the part that it
cuts out. -/
theorem run_plan (mode : Mode) (k : Lookups) : (plan b mode d).run k =
    let r := (rendered b mode d (lastComment ls) (l.takeWhile isIndentSym)).run k
    (mode.planWith ls (l.takeWhile isIndentSym) r.1, r.2) := by
  cases mode with
  | insert => exact h.run_planInsert k
  | replace => exact h.run_planReplace k
  | merge => exact h.run_planMerge k

theorem plan_eq (mode : Mode) : plan b mode d =
    rendered b mode d (lastComment ls) (l.takeWhile isIndentSym) >>= fun lines =>
      pure (mode.planWith ls (l.takeWhile isIndentSym) lines) :=
  funext fun k => h.run_plan mode k

end Stands

/-- Builders that differ in what they filter and look up make the same plan as long as their lookups
agree. -/
theorem plan_parallel {b : Builder} (f : Settings.Filter) {provider' : Option Provider}
    (hboth : provider'.isSome = b.provider.isSome) (mode : Mode) (d : Definition) :
    Lookups.Parallel b.provider provider' (plan b mode d)
      (plan (b.varied b.source f provider') mode d) := by
  obtain ⟨ls, l, below, hstands⟩ := exists_stands b d
  have hstands' : Stands (b.varied b.source f provider') d ls l below :=
    ⟨hstands.lines_eq, hstands.liesIn⟩
  rw [hstands.plan_eq, hstands'.plan_eq]
  exact (rendered_parallel f hboth (Alike.refl b.settings b.source d) mode _ _).bind fun lines =>
    .pure _

theorem plan_concur (b : Builder) (mode : Mode) (d : Definition) :
    Lookups.Concur b.provider (plan b mode d) (plan b mode d) :=
  (plan_parallel b.settings.filter rfl mode d).concur

/-- Planning looks up and reports, nothing else. -/
theorem plan_reaches (b : Builder) (mode : Mode) (d : Definition) (k : Lookups) :
    Lookups.Reaches b.provider k ((plan b mode d).run k).2 :=
  (plan_concur b mode d).left k

end RubyDoc.Edit
