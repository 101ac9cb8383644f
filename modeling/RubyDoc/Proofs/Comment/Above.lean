import Mathlib.Data.List.DropRight
import RubyDoc.Comment.Run
import RubyDoc.Proofs.Text.LineView
import RubyDoc.Proofs.Text.Trim

/-!
# The comment at the end of some lines

The lines above a definition end in a comment followed by blank lines; both may be missing.  This
module splits a list of raw lines that way and shows that the comment the library finds above a line
is the middle part, whatever stands below.  Whether that comment is documentation, where a new block
goes and what gives way to it are then questions about the split.
-/

namespace RubyDoc

namespace Text

/-- What a raw line says: a carriage return at its end is no part of it. -/
def withoutReturn (l : Text) : Text :=
  if l.getLast? = some Sym.carriageReturn then l.dropLast else l

@[simp] theorem withoutReturn_concat (l : Text) :
    withoutReturn (l ++ [Sym.carriageReturn]) = l := by
  simp [withoutReturn]

theorem withoutReturn_of_ne {l : Text} (h : l.getLast? ≠ some Sym.carriageReturn) :
    withoutReturn l = l := by
  rw [withoutReturn, if_neg h]

theorem eq_withoutReturn_or (l : Text) :
    l = withoutReturn l ∨ l = withoutReturn l ++ [Sym.carriageReturn] := by
  by_cases h : l.getLast? = some Sym.carriageReturn
  · obtain ⟨m, rfl⟩ := List.getLast?_eq_some_iff.1 h
    exact Or.inr (by rw [withoutReturn_concat])
  · exact Or.inl (withoutReturn_of_ne h).symm

theorem withoutReturn_append_end {e : Text} (he : e = [] ∨ e = [Sym.carriageReturn]) (l : Text) :
    withoutReturn (l ++ e) = l ∨ withoutReturn (l ++ e) = withoutReturn l := by
  rcases he with rfl | rfl
  · rw [List.append_nil]
    exact Or.inr rfl
  · exact Or.inl (withoutReturn_concat l)

theorem lineFeed_notMem_withoutReturn {l : Text} (h : Sym.lineFeed ∉ l) :
    Sym.lineFeed ∉ withoutReturn l := by
  rcases eq_withoutReturn_or l with heq | heq
  · rwa [← heq]
  · rw [heq] at h
    exact fun hmem => h (List.mem_append_left _ hmem)

theorem isBlank_withoutReturn (l : Text) : isBlank (withoutReturn l) = isBlank l := by
  have hreturn : isBlank [Sym.carriageReturn] = true := rfl
  rcases eq_withoutReturn_or l with h | h
  · rw [← h]
  · conv_rhs => rw [h, isBlank_append, hreturn, Bool.and_true]

end Text

namespace Comment

open Text

/-- Is the line neither blank nor a comment? -/
def isCode (line : Text) : Bool :=
  !line.isBlank && !isComment line

theorem isBlank_eq_false_of_isComment {l : Text} (h : isComment l) : l.isBlank = false := by
  rw [Bool.eq_false_iff]
  intro hblank
  have hnil : l.trimLeft = [] := List.dropWhile_eq_nil_iff.2 (List.all_eq_true.1 hblank)
  simp [isComment, hnil] at h

theorem isComment_withoutReturn (l : Text) : isComment (withoutReturn l) = isComment l := by
  rcases eq_withoutReturn_or l with h | h
  · rw [← h]
  · conv_rhs => rw [h, isComment, trimLeft_append]
    by_cases hblank : isBlank (withoutReturn l)
    · have hnil : (withoutReturn l).trimLeft = [] :=
        List.dropWhile_eq_nil_iff.2 (List.all_eq_true.1 hblank)
      rw [if_pos hblank, isComment, hnil]
      rfl
    · have hne : (withoutReturn l).trimLeft ≠ [] := fun hnil =>
        hblank (List.all_eq_true.2 (List.dropWhile_eq_nil_iff.1 hnil))
      rw [if_neg hblank, isComment, List.head?_append_of_ne_nil _ hne]

theorem isComment_append {l : Text} (h : isComment l) (t : Text) : isComment (l ++ t) := by
  have hblank := isBlank_eq_false_of_isComment h
  have hne : l.trimLeft ≠ [] := by
    rintro hnil
    simp [isComment, hnil] at h
  rw [isComment, trimLeft_append, hblank, if_neg Bool.false_ne_true,
    List.head?_append_of_ne_nil _ hne]
  exact h

theorem isBlank_indent {indent : Text} (hindent : ∀ c ∈ indent, isIndentSym c) :
    indent.isBlank := by
  refine List.all_eq_true.2 fun c hc => ?_
  have h := hindent c hc
  simp only [isIndentSym, Bool.or_eq_true, decide_eq_true_eq] at h
  rcases h with rfl | rfl <;> rfl

/-- A comment sign after the indentation makes a comment line. -/
theorem isComment_indented {indent : Text} (hindent : ∀ c ∈ indent, isIndentSym c) (rest : Text) :
    isComment (indent ++ .char '#' :: rest) := by
  rw [isComment, trimLeft_append, isBlank_indent hindent, if_pos rfl]
  rfl

/-! ## The split -/

section Last

variable {α : Type} {p : α → Bool} {front back : List α}

/-- What satisfies `p` at the end, with something before it that does not. -/
theorem rtakeWhile_append_eq (hback : ∀ a ∈ back, p a)
    (hfront : ∀ a, front.getLast? = some a → p a = false) :
    (front ++ back).rtakeWhile p = back ∧ (front ++ back).rdropWhile p = front := by
  have hrev : ∀ a ∈ back.reverse, p a := fun a ha => hback a (List.mem_reverse.1 ha)
  have hstop : front.reverse.takeWhile p = [] ∧ front.reverse.dropWhile p = front.reverse := by
    rcases List.eq_nil_or_concat' front with rfl | ⟨rest, a, rfl⟩
    · exact ⟨rfl, rfl⟩
    · have ha : p a = false := hfront a (by simp)
      simp [ha]
  rw [List.rtakeWhile, List.rdropWhile, List.reverse_append, List.takeWhile_append_of_pos hrev,
    List.dropWhile_append_of_pos hrev, hstop.1, hstop.2]
  simp

theorem getLast?_rdropWhile {l : List α} {a : α} (h : (l.rdropWhile p).getLast? = some a) :
    p a = false := by
  have hne : l.rdropWhile p ≠ [] := by
    intro hnil
    rw [hnil] at h
    cases h
  rw [List.getLast?_eq_some_getLast hne, Option.some.injEq] at h
  rw [← h]
  simpa using List.rdropWhile_last_not p l hne

end Last

/-- The blank lines at the end. -/
def gapBelow (ls : List Text) : List Text :=
  ls.rtakeWhile Text.isBlank

/-- The comment that only blank lines follow. -/
def lastComment (ls : List Text) : List Text :=
  (ls.rdropWhile Text.isBlank).rtakeWhile isComment

/-- The lines before that comment. -/
def beforeComment (ls : List Text) : List Text :=
  (ls.rdropWhile Text.isBlank).rdropWhile isComment

/-- Lines split at the comment they end in: what is above it, the comment, the blank lines after
it.  The comment and the blank lines are as long as they can be. -/
structure Split (ls upper comment gap : List Text) : Prop where
  eq : ls = upper ++ comment ++ gap
  isBlank_of_mem : ∀ l ∈ gap, isBlank l
  isComment_of_mem : ∀ l ∈ comment, isComment l
  upper_not_comment : ∀ l, upper.getLast? = some l → isComment l = false
  upper_not_blank : comment = [] → ∀ l, upper.getLast? = some l → isBlank l = false

theorem split_self (ls : List Text) :
    Split ls (beforeComment ls) (lastComment ls) (gapBelow ls) where
  eq := by
    rw [beforeComment, lastComment, gapBelow, List.rdropWhile_append_rtakeWhile,
      List.rdropWhile_append_rtakeWhile]
  isBlank_of_mem _ h := List.mem_rtakeWhile_imp h
  isComment_of_mem _ h := List.mem_rtakeWhile_imp h
  upper_not_comment _ h := getLast?_rdropWhile h
  upper_not_blank hnil l hl := by
    have hwhole : beforeComment ls = ls.rdropWhile isBlank := by
      have happ : beforeComment ls ++ lastComment ls = ls.rdropWhile isBlank :=
        List.rdropWhile_append_rtakeWhile
      rwa [hnil, List.append_nil] at happ
    rw [hwhole] at hl
    exact getLast?_rdropWhile hl

theorem mem_of_mem_lastComment {ls : List Text} {l : Text} (h : l ∈ lastComment ls) : l ∈ ls := by
  rw [(split_self ls).eq]
  simp [h]

theorem lastComment_concat_of_blank {line : Text} (h : line.isBlank) (ls : List Text) :
    lastComment (ls ++ [line]) = lastComment ls := by
  rw [lastComment, List.rdropWhile_concat, if_pos h, lastComment]

theorem lastComment_concat_of_comment {line : Text} (h : isComment line) (ls : List Text) :
    lastComment (ls ++ [line]) ≠ [] := by
  have hblank : ¬line.isBlank := by
    rw [isBlank_eq_false_of_isComment h]
    exact Bool.false_ne_true
  rw [lastComment, List.rdropWhile_concat, if_neg hblank, List.rtakeWhile_concat, if_pos h]
  exact List.append_ne_nil_of_right_ne_nil _ (List.cons_ne_nil _ _)

theorem lastComment_concat_of_isCode {line : Text} (h : isCode line) (ls : List Text) :
    lastComment (ls ++ [line]) = [] := by
  rw [isCode, Bool.and_eq_true, Bool.not_eq_true', Bool.not_eq_true'] at h
  rw [lastComment, List.rdropWhile_concat, h.1, if_neg Bool.false_ne_true, List.rtakeWhile_concat,
    h.2, if_neg Bool.false_ne_true]

/-- Comment lines at the end keep a comment there. -/
theorem lastComment_append_ne_nil {ls new : List Text} (hnew : ∀ line ∈ new, isComment line)
    (h : new ≠ [] ∨ lastComment ls ≠ []) : lastComment (ls ++ new) ≠ [] := by
  rcases List.eq_nil_or_concat' new with rfl | ⟨front, line, rfl⟩
  · rw [List.append_nil]
    exact h.resolve_left (not_not.2 rfl)
  · rw [← List.append_assoc]
    exact lastComment_concat_of_comment (hnew line (by simp)) _

namespace Split

variable {ls upper comment gap : List Text}

theorem last_not_blank (h : Split ls upper comment gap) (l : Text)
    (hl : (upper ++ comment).getLast? = some l) : isBlank l = false := by
  rcases List.eq_nil_or_concat' comment with hnil | ⟨rest, c, hconcat⟩
  · rw [hnil, List.append_nil] at hl
    exact h.upper_not_blank hnil l hl
  · rw [hconcat, ← List.append_assoc, List.getLast?_concat, Option.some.injEq] at hl
    rw [← hl]
    exact isBlank_eq_false_of_isComment (h.isComment_of_mem c (by simp [hconcat]))

/-- The split is the only one. -/
theorem eq_parts (h : Split ls upper comment gap) :
    beforeComment ls = upper ∧ lastComment ls = comment ∧ gapBelow ls = gap := by
  obtain ⟨hgap, hrest⟩ := rtakeWhile_append_eq h.isBlank_of_mem h.last_not_blank
  obtain ⟨hcomment, hupper⟩ := rtakeWhile_append_eq h.isComment_of_mem h.upper_not_comment
  rw [← h.eq] at hgap hrest
  exact ⟨by rw [beforeComment, hrest, hupper], by rw [lastComment, hrest, hcomment], hgap⟩

end Split

/-- Comment lines that only blank lines follow belong to the comment. -/
theorem mem_lastComment_of_mem_run (upper : List Text) {run gap : List Text}
    (hrun : ∀ l ∈ run, isComment l) (hgap : ∀ l ∈ gap, isBlank l) {line : Text} (h : line ∈ run) :
    line ∈ lastComment (upper ++ run ++ gap) := by
  -- The run may go on further up.
  have hsplit : Split (upper ++ run ++ gap) (upper.rdropWhile isComment)
      (upper.rtakeWhile isComment ++ run) gap := by
    refine ⟨?_, hgap, fun l hl => ?_, fun l hl => getLast?_rdropWhile hl, fun hnil => ?_⟩
    · rw [← List.append_assoc, List.rdropWhile_append_rtakeWhile]
    · rcases List.mem_append.1 hl with hl | hl
      · exact List.mem_rtakeWhile_imp hl
      · exact hrun l hl
    · rw [(List.append_eq_nil_iff.1 hnil).2] at h
      cases h
  rw [hsplit.eq_parts.2.1]
  exact List.mem_append_right _ h

/-- Lines below a line of code, or at the top, split as if nothing were above them. -/
theorem split_append {pre : List Text} (hpre : ∀ l, pre.getLast? = some l → isCode l)
    (ls : List Text) :
    Split (pre ++ ls) (pre ++ beforeComment ls) (lastComment ls) (gapBelow ls) := by
  have h := split_self ls
  -- With no line of `ls` above the comment, the line above it is the line of code.
  have hlast : ∀ l, (pre ++ beforeComment ls).getLast? = some l →
      (beforeComment ls).getLast? = some l ∨ isCode l := by
    intro l hl
    rw [List.getLast?_append] at hl
    cases hbefore : (beforeComment ls).getLast? with
    | none =>
        rw [hbefore] at hl
        exact Or.inr (hpre l hl)
    | some m =>
        rw [hbefore] at hl
        exact Or.inl hl
  refine ⟨?_, h.isBlank_of_mem, h.isComment_of_mem, fun l hl => ?_, fun hnil l hl => ?_⟩
  · conv_lhs => rw [h.eq]
    simp only [List.append_assoc]
  · rcases hlast l hl with hl | hl
    · exact h.upper_not_comment l hl
    · simp only [isCode, Bool.and_eq_true, Bool.not_eq_true'] at hl
      exact hl.2
  · rcases hlast l hl with hl | hl
    · exact h.upper_not_blank hnil l hl
    · simp only [isCode, Bool.and_eq_true, Bool.not_eq_true'] at hl
      exact hl.1

/-! ## The comment above a line -/

/-- The comment with the given raw lines, the first one at the offset `start`. -/
def Run.ofLines? (start : Nat) (ls : List Text) : Option Run :=
  match numbered start ls with
  | [] => none
  | first :: rest => some { first, rest }

theorem raw_mem_of_mem_numbered {start : Nat} {ls : List Text} {l : Line}
    (h : l ∈ numbered start ls) : l.raw ∈ ls := by
  rw [← map_raw_numbered start ls]
  exact List.mem_map_of_mem h

theorem getLast?_numbered {start : Nat} {ls : List Text} {l : Line}
    (h : (numbered start ls).getLast? = some l) : ls.getLast? = some l.raw := by
  rw [← map_raw_numbered start ls, List.getLast?_map, h]
  rfl

theorem runOfReversed?_numbered (start : Nat) {ls upper comment gap : List Text}
    (h : Split ls upper comment gap) :
    runOfReversed? (numbered start ls).reverse =
      Run.ofLines? (start + (closed upper).length) comment := by
  have hblank : ∀ l : Line, isBlank l.text = isBlank l.raw := fun l => isBlank_withoutReturn l.raw
  have hcomm : ∀ l : Line, isComment l.text = isComment l.raw :=
    fun l => isComment_withoutReturn l.raw
  -- From the end, the blank lines come first and the comment next; texts and raw lines agree.
  have hgap := @rtakeWhile_append_eq Line (fun l => l.text.isBlank)
    (numbered start (upper ++ comment)) (numbered (start + (closed (upper ++ comment)).length) gap)
    (fun l hl => (hblank l).trans (h.isBlank_of_mem _ (raw_mem_of_mem_numbered hl)))
    (fun l hl => (hblank l).trans (h.last_not_blank _ (getLast?_numbered hl)))
  have hrun := @rtakeWhile_append_eq Line (fun l => isComment l.text)
    (numbered start upper) (numbered (start + (closed upper).length) comment)
    (fun l hl => (hcomm l).trans (h.isComment_of_mem _ (raw_mem_of_mem_numbered hl)))
    (fun l hl => (hcomm l).trans (h.upper_not_comment _ (getLast?_numbered hl)))
  rw [← numbered_append, ← h.eq] at hgap
  rw [← numbered_append] at hrun
  have hblock : (((numbered start ls).reverse.dropWhile fun l => l.text.isBlank).takeWhile
      fun l => isComment l.text).reverse = numbered (start + (closed upper).length) comment := by
    rw [← hrun.1, ← hgap.2, List.rtakeWhile, List.rdropWhile, List.reverse_reverse]
  rw [runOfReversed?, hblock]
  rfl

/-- The comment above the line `l` is the one that the lines above it end in. -/
theorem runAbove?_ofLines {ls upper comment gap : List Text} (h : Split ls upper comment gap)
    (hls : ∀ l ∈ ls, Sym.lineFeed ∉ l) (l : Text) (below : List Text) :
    runAbove? (ofLines (ls ++ l :: below)) (closed ls).length =
      Run.ofLines? (closed upper).length comment := by
  rw [runAbove?, take_ofLines ls (by simp), completeLines_closed hls, runOfReversed?_numbered 0 h,
    Nat.zero_add]

/-! ## What the comment says -/

/-- The directives that a comment begins with. -/
def leadingDirectives (comment : List Text) : List Text :=
  comment.takeWhile fun l => isDirective l.withoutReturn

/-- The lines of a comment after its leading directives. -/
def body (comment : List Text) : List Text :=
  comment.dropWhile fun l => isDirective l.withoutReturn

/-- Does a line after the leading directives mark the comment as documentation? -/
def documents (comment : List Text) : Bool :=
  (body comment).any fun l => isMarker l.withoutReturn

/-- The directives further down, as they are written again. -/
def innerDirectives (comment : List Text) : List Text :=
  ((body comment).map withoutReturn).filter isDirective

theorem leadingDirectives_append_body (comment : List Text) :
    leadingDirectives comment ++ body comment = comment :=
  List.takeWhile_append_dropWhile

theorem map_text_numbered (start : Nat) (ls : List Text) :
    (numbered start ls).map Line.text = ls.map withoutReturn := by
  induction ls generalizing start with
  | nil => rfl
  | cons l ls ih =>
      rw [numbered, List.map_cons, ih]
      rfl

theorem dropWhile_numbered (start : Nat) (ls : List Text) :
    ((numbered start ls).dropWhile fun l => isDirective l.text) =
      numbered (start + (closed (leadingDirectives ls)).length) (body ls) := by
  induction ls generalizing start with
  | nil => rfl
  | cons l ls ih =>
      have htext : Line.text ⟨start, l⟩ = l.withoutReturn := rfl
      rw [numbered, body, leadingDirectives, List.dropWhile_cons, List.dropWhile_cons,
        List.takeWhile_cons, htext]
      by_cases hl : isDirective l.withoutReturn
      · rw [if_pos hl, if_pos hl, if_pos hl, ih]
        simp only [closed_cons, List.length_append, List.length_cons]
        congr 1
        simp only [leadingDirectives]
        omega
      · rw [if_neg hl, if_neg hl, if_neg hl]
        rfl

theorem Run.ofLines?_eq_none_iff {start : Nat} {comment : List Text} :
    Run.ofLines? start comment = none ↔ comment = [] := by
  cases comment with
  | nil => exact iff_of_true rfl rfl
  | cons l ls => exact iff_of_false (by simp [Run.ofLines?, numbered]) (by simp)

section Found

variable {start : Nat} {comment : List Text} {run : Run} (h : Run.ofLines? start comment = some run)
include h

theorem Run.all_of_ofLines? : run.all = numbered start comment := by
  unfold Run.ofLines? at h
  split at h
  · cases h
  · rename_i first rest hnumbered
    rw [hnumbered, ← Option.some.inj h]
    rfl

theorem Run.texts_of_ofLines? : run.texts = comment.map withoutReturn := by
  rw [Run.texts, Run.all_of_ofLines? h, map_text_numbered]

theorem Run.start_of_ofLines? : run.start = start := by
  have hall := Run.all_of_ofLines? h
  cases comment with
  | nil => cases hall
  | cons l ls => exact congrArg Line.start (List.cons.inj hall).1

theorem Run.stop_of_ofLines? : run.stop = start + (closed comment).length := by
  have hall := Run.all_of_ofLines? h
  have hlast : run.all.getLast? = some (run.rest.getLast?.getD run.first) := List.getLast?_cons
  rw [Run.stop]
  rcases List.eq_nil_or_concat' comment with rfl | ⟨ls, l, rfl⟩
  · cases hall
  · rw [hall, numbered_append, numbered, numbered, List.getLast?_concat] at hlast
    rw [← Option.some.inj hlast, Line.stop]
    simp only [closed_append, closed_cons, closed_nil, List.length_append, List.length_cons,
      List.length_nil]
    omega

theorem Run.afterDirectives_of_ofLines? : run.afterDirectives =
    numbered (start + (closed (leadingDirectives comment)).length) (body comment) := by
  rw [Run.afterDirectives, Run.all_of_ofLines? h, dropWhile_numbered]

theorem Run.isDocumentation_of_ofLines? : run.isDocumentation = documents comment := by
  rw [Run.isDocumentation, Run.afterDirectives_of_ofLines? h, documents]
  have hmap : ∀ ls : List Line, (ls.any fun l => isMarker l.text) =
      (ls.map Line.text).any isMarker := fun ls => by rw [List.any_map]; rfl
  rw [hmap, map_text_numbered, List.any_map]
  rfl

theorem Run.afterDirectives_eq_nil_iff : run.afterDirectives = [] ↔ body comment = [] := by
  rw [Run.afterDirectives_of_ofLines? h]
  cases body comment with
  | nil => exact iff_of_true rfl rfl
  | cons l ls => simp [numbered]

end Found

/-- The comment touches the lines below if no blank lines lie between. -/
theorem Run.stop_eq_iff {ls : List Text} {run : Run}
    (h : Run.ofLines? (closed (beforeComment ls)).length (lastComment ls) = some run) :
    run.stop = (closed ls).length ↔ gapBelow ls = [] := by
  have hlength := congrArg (fun ls => (closed ls).length) (split_self ls).eq
  simp only [closed_append, List.length_append] at hlength
  rw [Run.stop_of_ofLines? h, hlength]
  cases gapBelow ls with
  | nil => simp
  | cons l gap => simp

/-! ## What becomes of the comment -/

section Above

variable {ls upper comment gap : List Text} (h : Split ls upper comment gap)
  (hls : ∀ l ∈ ls, Sym.lineFeed ∉ l) (l : Text) (below : List Text)
include h hls

theorem documentationAbove?_of_documents (hdoc : documents comment) :
    ∃ run, documentationAbove? (ofLines (ls ++ l :: below)) (closed ls).length = some run ∧
      run.texts = comment.map withoutReturn ∧ run.stop = (closed (upper ++ comment)).length := by
  have hne : comment ≠ [] := by
    rintro rfl
    cases hdoc
  obtain ⟨run, hrun⟩ := Option.ne_none_iff_exists'.1
    (mt (@Run.ofLines?_eq_none_iff (closed upper).length comment).1 hne)
  refine ⟨run, ?_, Run.texts_of_ofLines? hrun, ?_⟩
  · rw [documentationAbove?, runAbove?_ofLines h hls, hrun, Option.filter_some,
      Run.isDocumentation_of_ofLines? hrun, if_pos hdoc]
  · rw [Run.stop_of_ofLines? hrun, closed_append, List.length_append]

theorem documentationAbove?_of_not_documents (hdoc : documents comment = false) :
    documentationAbove? (ofLines (ls ++ l :: below)) (closed ls).length = none := by
  rw [documentationAbove?, runAbove?_ofLines h hls]
  cases hrun : Run.ofLines? (closed upper).length comment with
  | none => rfl
  | some run =>
      rw [Option.filter_some, Run.isDocumentation_of_ofLines? hrun, hdoc]
      rfl

/-- Documentation gives way from the end of its leading directives on. -/
theorem removalAbove?_ofLines :
    removalAbove? (ofLines (ls ++ l :: below)) (closed ls).length =
      if documents comment then
        some ⟨(closed (upper ++ leadingDirectives comment)).length, innerDirectives comment⟩
      else none := by
  cases hdoc : documents comment with
  | false =>
      rw [removalAbove?, documentationAbove?_of_not_documents h hls l below hdoc]
      rfl
  | true =>
      rw [removalAbove?, documentationAbove?, runAbove?_ofLines h hls]
      cases hrun : Run.ofLines? (closed upper).length comment with
      | none =>
          rw [Run.ofLines?_eq_none_iff.1 hrun] at hdoc
          cases hdoc
      | some run =>
          rw [Option.filter_some, Run.isDocumentation_of_ofLines? hrun, hdoc, if_pos rfl,
            if_pos rfl, Option.map_some, Run.afterDirectives_of_ofLines? hrun, innerDirectives,
            ← map_text_numbered
              ((closed upper).length + (closed (leadingDirectives comment)).length)]
          -- A comment that documents has a line after its leading directives.
          cases hbody : body comment with
          | nil =>
              rw [documents, hbody] at hdoc
              cases hdoc
          | cons m ms =>
              rw [closed_append, List.length_append]
              rfl

/-- A new block goes above a comment that touches the line, else directly above the line. -/
theorem placeAbovePlain_ofLines :
    placeAbovePlain (ofLines (ls ++ l :: below)) (closed ls).length =
      if gap = [] then (closed upper).length else (closed ls).length := by
  rw [placeAbovePlain, runAbove?_ofLines h hls]
  have hlength : (closed ls).length =
      (closed upper).length + (closed comment).length + (closed gap).length := by
    rw [h.eq, closed_append, closed_append, List.length_append, List.length_append]
  cases hrun : Run.ofLines? (closed upper).length comment with
  | none =>
      rw [Run.ofLines?_eq_none_iff.1 hrun] at hlength
      show (closed ls).length = _
      split
      · rename_i hgap
        rw [hlength, hgap]
        rfl
      · rfl
  | some run =>
      show (if run.stop = (closed ls).length then run.start else (closed ls).length) = _
      rw [Run.stop_of_ofLines? hrun, Run.start_of_ofLines? hrun]
      cases gap with
      | nil => rw [if_pos (by rw [hlength]; rfl), if_pos rfl]
      | cons m ms =>
          rw [if_neg, if_neg (by simp)]
          rw [hlength, closed_cons, List.length_append, List.length_cons]
          omega

end Above

end Comment

end RubyDoc
