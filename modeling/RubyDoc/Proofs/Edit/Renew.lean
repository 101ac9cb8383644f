import RubyDoc.Proofs.Comment.Marker
import RubyDoc.Proofs.Edit.Place

/-!
# Renewing a comment twice

Replacing leaves above a definition what stands there without its documentation, then the new
blocks, then the directives that stood inside the documentation (`renewed`).  The new blocks may
come to touch a comment that is no documentation.  The next time, the two make one documentation
comment, and all of it goes but the directives.  So replacing twice is replacing once exactly if no
such comment says anything else than directives (`renewed_renewed_eq_iff`).
-/

namespace RubyDoc.Edit

open Text Comment

/-- The lines above a definition after replacing, when `blocks` are rendered for it and new lines
end in `e`. -/
def renewed (e : Text) (blocks above : List Text) : List Text :=
  if blocks = [] then above
  else (Mode.replace.cut above).upper ++
    (blocks ++ Mode.replace.kept (lastComment above)).map (· ++ e)

/-- Can replacing be repeated above the definition without loss?  A comment that touches the
definition is documentation, or has nothing but directives. -/
def Settled (above : List Text) : Prop :=
  gapBelow above = [] → documents (lastComment above) ∨ body (lastComment above) = []

/-- The comment lines that the new lines come to touch. -/
def touched (above : List Text) : List Text :=
  if documents (lastComment above) then leadingDirectives (lastComment above)
  else if gapBelow above = [] then lastComment above
  else []

/-- What stays above those comment lines. -/
def untouched (above : List Text) : List Text :=
  if documents (lastComment above) ∨ gapBelow above = [] then beforeComment above else above

theorem body_leadingDirectives (comment : List Text) : body (leadingDirectives comment) = [] :=
  List.dropWhile_eq_nil_iff.2 fun _ hl =>
    List.mem_takeWhile_imp (p := fun l : Text => isDirective l.withoutReturn) hl

/-- A comment of directives has nothing after them. -/
theorem leadingDirectives_of_body_nil {comment : List Text} (h : body comment = []) :
    leadingDirectives comment = comment ∧ innerDirectives comment = [] := by
  have hsplit := leadingDirectives_append_body comment
  rw [h, List.append_nil] at hsplit
  refine ⟨hsplit, ?_⟩
  rw [innerDirectives, h]
  rfl

theorem length_leadingDirectives_add (comment : List Text) :
    (leadingDirectives comment).length + (body comment).length = comment.length := by
  rw [← List.length_append, leadingDirectives_append_body]

theorem settled_iff {above : List Text} : Settled above ↔ body (touched above) = [] := by
  unfold Settled touched
  by_cases hdoc : documents (lastComment above)
  · rw [if_pos hdoc, body_leadingDirectives]
    exact iff_of_true (fun _ => Or.inl hdoc) rfl
  · rw [if_neg hdoc]
    by_cases hgap : gapBelow above = []
    · rw [if_pos hgap]
      exact ⟨fun h => (h hgap).resolve_left hdoc, fun h _ => Or.inr h⟩
    · rw [if_neg hgap]
      exact iff_of_true (fun h => absurd h hgap) rfl

theorem upper_eq (above : List Text) :
    (Mode.replace.cut above).upper = untouched above ++ touched above := by
  have hsplit := split_self above
  unfold untouched touched
  cases hdoc : documents (lastComment above) with
  | true =>
      rw [if_pos (Or.inl rfl), if_pos rfl]
      exact (Mode.cut_replace_of_documents hdoc).1
  | false =>
      rw [(Mode.cut_replace_of_not_documents hdoc).1, if_neg Bool.false_ne_true]
      by_cases hgap : gapBelow above = []
      · rw [if_pos (Or.inr hgap), if_pos hgap]
        conv_lhs => rw [hsplit.eq, hgap, List.append_nil]
      · rw [if_neg (by simp [hgap]), if_neg hgap, List.append_nil]

theorem isComment_of_mem_touched {above : List Text} {line : Text} (h : line ∈ touched above) :
    isComment line := by
  unfold touched at h
  split at h
  · exact (split_self above).isComment_of_mem line ((List.takeWhile_sublist _).subset h)
  · split at h
    · exact (split_self above).isComment_of_mem line h
    · cases h

theorem untouched_not_comment {above : List Text} {line : Text}
    (h : (untouched above).getLast? = some line) : isComment line = false := by
  unfold untouched at h
  split at h
  · exact (split_self above).upper_not_comment line h
  · rename_i hneither
    rw [not_or] at hneither
    -- The last line is one of the blank lines below the comment.
    have hmem : line ∈ gapBelow above := by
      rw [(split_self above).eq, List.getLast?_append_of_ne_nil _ hneither.2] at h
      exact List.mem_of_getLast? h
    rw [Bool.eq_false_iff]
    intro hcomment
    have hblank := (split_self above).isBlank_of_mem line hmem
    rw [isBlank_eq_false_of_isComment hcomment] at hblank
    cases hblank

/-! ## The new comment -/

/-- The blocks can be told from the comments around them: their lines are comment lines, none of
them a directive, some of them marks documentation. -/
structure Blocks (blocks : List Text) : Prop where
  isComment_of_mem : ∀ line ∈ blocks, isComment line
  not_directive : ∀ line ∈ blocks, isDirective line = false
  exists_marker : ∃ line ∈ blocks, isMarker line

/-- New lines end in `e`, and no line above can lose a symbol at its end then. -/
structure Ends (e : Text) (above : List Text) : Prop where
  eq : e = [] ∨ e = [Sym.carriageReturn]
  no_return : e = [] → ∀ line ∈ above, line.getLast? ≠ some Sym.carriageReturn

theorem Blocks.ne_nil {blocks : List Text} (h : Blocks blocks) : blocks ≠ [] := by
  obtain ⟨line, hline, -⟩ := h.exists_marker
  exact List.ne_nil_of_mem hline

/-- The new comment lines above a definition. -/
def fresh (e : Text) (blocks above : List Text) : List Text :=
  (blocks ++ Mode.replace.kept (lastComment above)).map (· ++ e)

theorem renewed_eq {e : Text} {blocks above : List Text} (h : blocks ≠ []) :
    renewed e blocks above = untouched above ++ (touched above ++ fresh e blocks above) := by
  rw [renewed, if_neg h, upper_eq, List.append_assoc]
  rfl

theorem isDirective_of_mem_kept {mode : Mode} {comment : List Text} {line : Text}
    (h : line ∈ mode.kept comment) : isDirective line := by
  cases mode with
  | insert => cases h
  | merge => cases h
  | replace =>
      rw [Mode.kept] at h
      split at h
      · exact (List.mem_filter.1 h).2
      · cases h

/-- The directives among some lines, without terminators and in their order. -/
def directivesOf (ls : List Text) : List Text :=
  (ls.map withoutReturn).filter isDirective

@[simp] theorem directivesOf_nil : directivesOf [] = [] := rfl

@[simp] theorem directivesOf_append (ls ms : List Text) :
    directivesOf (ls ++ ms) = directivesOf ls ++ directivesOf ms := by
  simp only [directivesOf, List.map_append, List.filter_append]

theorem directivesOf_eq_nil {ls : List Text}
    (h : ∀ line ∈ ls, isDirective line.withoutReturn = false) : directivesOf ls = [] := by
  rw [directivesOf, List.filter_eq_nil_iff]
  intro said hsaid
  obtain ⟨line, hline, rfl⟩ := List.mem_map.1 hsaid
  rw [h line hline]
  exact Bool.false_ne_true

theorem innerDirectives_eq (comment : List Text) :
    innerDirectives comment = directivesOf (body comment) := rfl

section Said

variable {e : Text} {blocks above : List Text} (hends : Ends e above)
include hends

/-- A directive that was kept is read again as it was. -/
theorem Ends.said_kept {mode : Mode} {line : Text} (h : line ∈ mode.kept (lastComment above)) :
    (line ++ e).withoutReturn = line := by
  obtain ⟨m, hm, rfl⟩ := Mode.exists_of_mem_kept h
  rcases hends.eq with rfl | rfl
  · have hlast := hends.no_return rfl m (mem_of_mem_lastComment hm)
    rw [List.append_nil, withoutReturn_of_ne hlast, withoutReturn_of_ne hlast]
  · exact withoutReturn_concat _

/-- A line that is no directive does not become one by its end. -/
theorem Ends.not_directive {line : Text} (hline : isDirective line = false) :
    isDirective (line ++ e).withoutReturn = false := by
  rcases withoutReturn_append_end hends.eq line with hsaid | hsaid
  · rwa [hsaid]
  · rw [hsaid, Bool.eq_false_iff]
    intro hdirective
    -- A directive would be one with the carriage return as well.
    rcases eq_withoutReturn_or line with heq | heq
    · rw [← heq, hline] at hdirective
      cases hdirective
    · have hreturn : isDirective (line.withoutReturn ++ [Sym.carriageReturn]) :=
        isDirective_append_return hdirective
      rw [← heq, hline] at hreturn
      cases hreturn

theorem Ends.directivesOf_new {new : List Text} (h : ∀ line ∈ new, isDirective line = false) :
    directivesOf (new.map (· ++ e)) = [] := by
  refine directivesOf_eq_nil fun line hline => ?_
  obtain ⟨m, hm, rfl⟩ := List.mem_map.1 hline
  exact hends.not_directive (h m hm)

/-- The directives that a mode writes again are read as they were. -/
theorem Ends.directivesOf_kept (mode : Mode) :
    directivesOf ((mode.kept (lastComment above)).map (· ++ e)) =
      mode.kept (lastComment above) := by
  have hread : (mode.kept (lastComment above)).map (fun line => (line ++ e).withoutReturn) =
      mode.kept (lastComment above) :=
    (List.map_congr_left fun line hline => hends.said_kept hline).trans (List.map_id _)
  rw [directivesOf, List.map_map, Function.comp_def, hread, List.filter_eq_self]
  exact fun line hline => isDirective_of_mem_kept hline

theorem Ends.isMarker {line : Text} (hline : Comment.isMarker line) :
    Comment.isMarker (line ++ e).withoutReturn := by
  rcases withoutReturn_append_end hends.eq line with hsaid | hsaid
  · rwa [hsaid]
  · rw [hsaid]
    exact isMarker_withoutReturn hline

end Said

/-! ## The second time -/

section Append

variable {comment more : List Text}
  (hmore : ∀ l, more.head? = some l → isDirective l.withoutReturn = false)
include hmore

theorem leadingDirectives_append :
    leadingDirectives (comment ++ more) = leadingDirectives comment ∧
      body (comment ++ more) = body comment ++ more := by
  induction comment with
  | nil =>
      cases more with
      | nil => exact ⟨rfl, rfl⟩
      | cons l more =>
          have hl := hmore l rfl
          exact ⟨List.takeWhile_cons_of_neg (by simp [hl]),
            List.dropWhile_cons_of_neg (by simp [hl])⟩
  | cons l comment ih =>
      by_cases hl : isDirective l.withoutReturn
      · simp only [leadingDirectives, body, List.cons_append, List.takeWhile_cons,
          List.dropWhile_cons, hl, if_true] at ih ⊢
        exact ⟨congrArg _ ih.1, ih.2⟩
      · simp only [leadingDirectives, body, List.cons_append, List.takeWhile_cons,
          List.dropWhile_cons, hl]
        exact ⟨rfl, rfl⟩

end Append

/-- The first line after the leading directives is none itself. -/
theorem length_innerDirectives_lt {comment : List Text} (h : body comment ≠ []) :
    (innerDirectives comment).length < (body comment).length := by
  obtain ⟨l, rest, hcons⟩ := List.exists_cons_of_ne_nil h
  have hl : isDirective l.withoutReturn = false := by
    have hhead := List.head_dropWhile_not (fun l : Text => isDirective l.withoutReturn) h
    change isDirective ((body comment).head h).withoutReturn = false at hhead
    simpa [hcons] using hhead
  rw [innerDirectives, hcons, List.map_cons, List.filter_cons_of_neg (by simp [hl]),
    List.length_cons]
  refine Nat.lt_succ_of_le ((List.length_filter_le _ _).trans ?_)
  rw [List.length_map]

section Twice

variable {e : Text} {blocks above : List Text} (hblocks : Blocks blocks) (hends : Ends e above)
include hblocks hends

theorem head?_fresh (l : Text) (h : (fresh e blocks above).head? = some l) :
    isDirective l.withoutReturn = false := by
  obtain ⟨first, rest, hcons⟩ := List.exists_cons_of_ne_nil hblocks.ne_nil
  rw [fresh, hcons] at h
  obtain rfl : first ++ e = l := Option.some.inj h
  exact hends.not_directive (hblocks.not_directive _ (hcons ▸ List.mem_cons_self))

theorem innerDirectives_append_fresh :
    innerDirectives (touched above ++ fresh e blocks above) =
      innerDirectives (touched above) ++ Mode.replace.kept (lastComment above) := by
  rw [innerDirectives_eq, (leadingDirectives_append (head?_fresh hblocks hends)).2,
    directivesOf_append, fresh, List.map_append, directivesOf_append,
    hends.directivesOf_new hblocks.not_directive, hends.directivesOf_kept, List.nil_append]
  rfl

theorem documents_append_fresh : documents (touched above ++ fresh e blocks above) := by
  obtain ⟨line, hline, hmark⟩ := hblocks.exists_marker
  refine documents_of_mem (l := line ++ e) ?_ (hends.isMarker hmark)
  exact List.mem_append_right _ (List.mem_map_of_mem (List.mem_append_left _ hline))

omit hends in
theorem split_renewed : Split (renewed e blocks above) (untouched above)
    (touched above ++ fresh e blocks above) [] where
  eq := by rw [renewed_eq hblocks.ne_nil, List.append_nil]
  isBlank_of_mem _ h := absurd h List.not_mem_nil
  isComment_of_mem line h := by
    rcases List.mem_append.1 h with h | h
    · exact isComment_of_mem_touched h
    · obtain ⟨m, hm, rfl⟩ := List.mem_map.1 h
      refine isComment_append ?_ e
      rcases List.mem_append.1 hm with hm | hm
      · exact hblocks.isComment_of_mem m hm
      · obtain ⟨c, hc, rfl⟩ := Mode.exists_of_mem_kept hm
        rw [isComment_withoutReturn]
        exact (split_self above).isComment_of_mem c hc
  upper_not_comment _ h := untouched_not_comment h
  upper_not_blank hnil := by
    have hfresh := (List.append_eq_nil_iff.1 hnil).2
    rw [fresh, List.map_eq_nil_iff, List.append_eq_nil_iff] at hfresh
    exact absurd hfresh.1 hblocks.ne_nil

/-- **Replacing twice.**  Of the comment that the new lines came to touch, only the directives are
left. -/
theorem renewed_renewed (e' : Text) : renewed e' blocks (renewed e blocks above) =
    untouched above ++ (leadingDirectives (touched above) ++
      (blocks ++ (innerDirectives (touched above) ++ Mode.replace.kept (lastComment above))).map
        (· ++ e')) := by
  obtain ⟨hbefore, hcomment, -⟩ := (split_renewed hblocks).eq_parts
  have hdoc := documents_append_fresh hblocks hends
  have hupper := (Mode.cut_replace_of_documents
    (show documents (lastComment (renewed e blocks above)) by rwa [hcomment])).1
  rw [hbefore, hcomment, (leadingDirectives_append (head?_fresh hblocks hends)).1] at hupper
  rw [renewed, if_neg hblocks.ne_nil, hupper, hcomment, Mode.kept, if_pos hdoc,
    innerDirectives_append_fresh hblocks hends, List.append_assoc]

theorem length_renewed_renewed_le (e' : Text) :
    (renewed e' blocks (renewed e blocks above)).length ≤ (renewed e blocks above).length := by
  have hlength := length_leadingDirectives_add (touched above)
  have hinner : (innerDirectives (touched above)).length ≤ (body (touched above)).length :=
    (List.length_filter_le _ _).trans (List.length_map _).le
  rw [renewed_renewed hblocks hends, renewed_eq hblocks.ne_nil, fresh]
  simp only [List.length_append, List.length_map]
  omega

/-- **When replacing twice is replacing once.** -/
theorem renewed_renewed_eq_iff (e' : Text) :
    renewed e' blocks (renewed e blocks above) = renewed e blocks above ↔
      Settled above ∧ e' = e := by
  rw [settled_iff, renewed_renewed hblocks hends, renewed_eq hblocks.ne_nil, fresh]
  constructor
  · intro heq
    have hbody : body (touched above) = [] := by
      by_contra hne
      have hlt := length_innerDirectives_lt hne
      have hlength := length_leadingDirectives_add (touched above)
      have hsame := congrArg List.length heq
      simp only [List.length_append, List.length_map] at hsame
      omega
    obtain ⟨hleading, hinner⟩ := leadingDirectives_of_body_nil hbody
    refine ⟨hbody, ?_⟩
    rw [hleading, hinner, List.nil_append] at heq
    -- The first new line tells how the lines end.
    obtain ⟨first, rest, hcons⟩ := List.exists_cons_of_ne_nil hblocks.ne_nil
    rw [hcons] at heq
    have hfresh := List.append_cancel_left (List.append_cancel_left heq)
    exact List.append_cancel_left (List.cons.inj hfresh).1
  · rintro ⟨hbody, rfl⟩
    obtain ⟨hleading, hinner⟩ := leadingDirectives_of_body_nil hbody
    rw [hleading, hinner, List.nil_append]

end Twice

/-- Renewing with any blocks, none included. -/
theorem renewed_again {e : Text} (e' : Text) {blocks above : List Text}
    (hblocks : blocks ≠ [] → Blocks blocks) (hends : Ends e above) :
    (renewed e' blocks (renewed e blocks above)).length ≤ (renewed e blocks above).length ∧
      (renewed e' blocks (renewed e blocks above) = renewed e blocks above ↔
        (blocks ≠ [] → Settled above ∧ e' = e)) := by
  by_cases hnil : blocks = []
  · rw [hnil]
    exact ⟨Nat.le_refl _, iff_of_true rfl fun h => absurd rfl h⟩
  · rw [renewed_renewed_eq_iff (hblocks hnil) hends e']
    exact ⟨length_renewed_renewed_le (hblocks hnil) hends e', (imp_iff_right hnil).symm⟩

end RubyDoc.Edit
