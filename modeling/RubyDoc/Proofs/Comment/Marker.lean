import RubyDoc.Proofs.Comment.Above

/-!
# Markers and directives at the end of a line

A builder's lines carry no carriage return of their own, but one that ends in such a symbol loses it
when the comment is read again.  A directive stays one with a carriage return after it
(`isDirective_append_return`), and a marker stays one without (`isMarker_withoutReturn`).  So a
comment is documentation iff one of its lines is a marker, wherever the line stands
(`documents_eq_any`).
-/

namespace RubyDoc.Comment

open Text

/-- A carriage return as a text. -/
def returnText : Text := [Sym.carriageReturn]

theorem trimLeft_append_of_not_blank {t : Text} (h : t.isBlank = false) (w : Text) :
    trimLeft (t ++ w) = trimLeft t ++ w := by
  rw [trimLeft_append, h, if_neg Bool.false_ne_true]

theorem isBlank_eq_false_of_trimLeft {t : Text} (h : t.trimLeft ≠ []) : t.isBlank = false := by
  rw [Bool.eq_false_iff]
  exact fun hblank => h (List.dropWhile_eq_nil_iff.2 (List.all_eq_true.1 hblank))

theorem trimLeft_append_return_of_blank {t : Text} (h : t.isBlank) :
    trimLeft (t ++ returnText) = [] := by
  rw [trimLeft_append, h, if_pos rfl]
  rfl

theorem endsWord_append_return {t : Text} (h : endsWord t) : endsWord (t ++ returnText) := by
  cases t with
  | nil => rfl
  | cons s t => exact h

/-! ## What follows a comment sign -/

theorem afterSign?_append {line rest : Text} (h : afterSign? line = some rest) (w : Text) :
    afterSign? (line ++ w) = some (rest ++ w) := by
  rw [afterSign?] at h
  cases htrim : line.trimLeft with
  | nil =>
      rw [htrim] at h
      cases h
  | cons s more =>
      rw [htrim] at h
      have hblank : line.isBlank = false := isBlank_eq_false_of_trimLeft (by simp [htrim])
      rw [afterSign?, trimLeft_append_of_not_blank hblank, htrim]
      dsimp only [List.cons_append] at h ⊢
      split at h
      · rename_i hs
        rw [if_pos hs, Option.some.inj h]
      · cases h

theorem afterSign?_return_inv {line rest : Text}
    (h : afterSign? (line ++ returnText) = some rest) :
    ∃ more, afterSign? line = some more ∧ rest = more ++ returnText := by
  cases hblank : line.isBlank with
  | true =>
      rw [afterSign?, trimLeft_append_return_of_blank hblank] at h
      cases h
  | false =>
      rw [afterSign?, trimLeft_append_of_not_blank hblank] at h
      have hne : line.trimLeft ≠ [] := fun hnil => by
        have hall := List.dropWhile_eq_nil_iff.1 hnil
        rw [isBlank, List.all_eq_true.2 hall] at hblank
        cases hblank
      obtain ⟨s, more, htrim⟩ := List.exists_cons_of_ne_nil hne
      rw [htrim] at h
      dsimp only [List.cons_append] at h
      split at h
      · rename_i hs
        refine ⟨more, ?_, (Option.some.inj h).symm⟩
        rw [afterSign?, htrim]
        exact if_pos hs
      · cases h

theorem content?_append {line said : Text} (h : content? line = some said) (hsaid : said ≠ [])
    (w : Text) : content? (line ++ w) = some (said ++ w) := by
  rw [content?, Option.map_eq_some_iff] at h
  obtain ⟨rest, hrest, rfl⟩ := h
  rw [content?, afterSign?_append hrest, Option.map_some,
    trimLeft_append_of_not_blank (isBlank_eq_false_of_trimLeft hsaid)]

/-- What a line with a carriage return says is nothing, or what it says without it. -/
theorem content?_return_inv {line said : Text} (h : content? (line ++ returnText) = some said) :
    said = [] ∨ ∃ u, content? line = some u ∧ said = u ++ returnText := by
  rw [content?, Option.map_eq_some_iff] at h
  obtain ⟨rest, hrest, rfl⟩ := h
  obtain ⟨more, hmore, rfl⟩ := afterSign?_return_inv hrest
  cases hblank : more.isBlank with
  | true => exact Or.inl (trimLeft_append_return_of_blank hblank)
  | false =>
      refine Or.inr ⟨more.trimLeft, ?_, trimLeft_append_of_not_blank hblank _⟩
      rw [content?, hmore, Option.map_some]

/-! ## Directives -/

theorem valueOf?_append {key t v : Text} (h : valueOf? key t = some v) (hv : v ≠ []) (w : Text) :
    valueOf? key (t ++ w) = some (v ++ w) := by
  simp only [valueOf?, Option.bind_eq_bind, Option.bind_eq_some_iff, Option.some.injEq] at h
  obtain ⟨rest, hrest, value, hvalue, rfl⟩ := h
  have hrestBlank : rest.isBlank = false := by
    refine isBlank_eq_false_of_trimLeft fun hnil => ?_
    rw [hnil] at hvalue
    cases hvalue
  simp only [valueOf?, Option.bind_eq_bind, after?_append_right hrest, Option.bind_some,
    trimLeft_append_of_not_blank hrestBlank, after?_append_right hvalue,
    trimLeft_append_of_not_blank (isBlank_eq_false_of_trimLeft hv)]

theorem startsWithWord_append_return {words : List Text} {t : Text} (h : startsWithWord words t) :
    startsWithWord words (t ++ returnText) := by
  rw [startsWithWord, List.any_eq_true] at h ⊢
  obtain ⟨word, hword, h⟩ := h
  obtain ⟨rest, hrest, hends⟩ := (Option.any_eq_true _ _).1 h
  refine ⟨word, hword, ?_⟩
  rw [after?_append_right hrest]
  exact endsWord_append_return hends

theorem isLinterSwitch_append_return {t : Text} (h : isLinterSwitch t) :
    isLinterSwitch (t ++ returnText) := by
  obtain ⟨v, hv, hword⟩ := (Option.any_eq_true _ _).1 h
  have hne : v ≠ [] := by
    rintro rfl
    exact absurd hword (by decide)
  rw [isLinterSwitch, valueOf?_append hv hne]
  exact startsWithWord_append_return hword

/-- A run of symbols and white space after it may have a carriage return after it. -/
theorem isBlank_dropWhile_append_return {p : Sym → Bool} (hp : p Sym.carriageReturn = false)
    {t : Text} (h : Text.isBlank (t.dropWhile p)) :
    Text.isBlank ((t ++ returnText).dropWhile p) := by
  rw [List.dropWhile_append]
  split
  · rw [returnText, List.dropWhile_cons, hp]
    rfl
  · rw [isBlank_append, h]
    rfl

theorem head?_any_append {p : Sym → Bool} {t : Text} (h : t.head?.any p) (w : Text) :
    (t ++ w).head?.any p := by
  cases t with
  | nil => cases h
  | cons s t => exact h

theorem isWordPragma_append_return {t : Text} (h : isWordPragma t) :
    isWordPragma (t ++ returnText) := by
  rw [isWordPragma, List.any_eq_true] at h ⊢
  obtain ⟨key, hkey, h⟩ := h
  obtain ⟨v, hv, hword⟩ := (Option.any_eq_true _ _).1 h
  have hne : v ≠ [] := by
    rintro rfl
    exact absurd hword (by decide)
  rw [isOneWord, Bool.and_eq_true] at hword
  refine ⟨key, hkey, ?_⟩
  rw [valueOf?_append hv hne, Option.any_some, isOneWord, Bool.and_eq_true]
  exact ⟨head?_any_append hword.1 _, isBlank_dropWhile_append_return (by decide) hword.2⟩

theorem afterAssignment?_append {t rest : Text} (h : afterAssignment? t = some rest) (w : Text) :
    afterAssignment? (t ++ w) = some (rest ++ w) := by
  rw [afterAssignment?] at h
  cases htrim : t.trimLeft with
  | nil =>
      rw [htrim] at h
      cases h
  | cons s more =>
      rw [htrim] at h
      have hblank : t.isBlank = false := isBlank_eq_false_of_trimLeft (by simp [htrim])
      rw [afterAssignment?, trimLeft_append_of_not_blank hblank, htrim]
      dsimp only [List.cons_append] at h ⊢
      split at h
      · rename_i hs
        rw [if_pos hs, Option.some.inj h]
      · cases h

theorem isEncodingPragma_append_return {t : Text} (h : isEncodingPragma t) :
    isEncodingPragma (t ++ returnText) := by
  rw [isEncodingPragma, List.any_eq_true] at h ⊢
  obtain ⟨key, hkey, h⟩ := h
  obtain ⟨rest, hrest, h⟩ := (Option.any_eq_true _ _).1 h
  obtain ⟨more, hmore, hassign⟩ := Option.bind_eq_some_iff.1 hrest
  rw [Bool.and_eq_true] at h
  have hne : rest.isBlank = false := by
    refine isBlank_eq_false_of_trimLeft fun hnil => ?_
    rw [hnil] at h
    cases h.1
  refine ⟨key, hkey, ?_⟩
  rw [after?_append_right hmore, Option.bind_some, afterAssignment?_append hassign, Option.any_some,
    trimLeft_append_of_not_blank hne, Bool.and_eq_true]
  exact ⟨head?_any_append h.1 _, isBlank_dropWhile_append_return (by decide) h.2⟩

theorem afterAnyCase?_append {word : List Char} {t rest : Text}
    (h : afterAnyCase? word t = some rest) (w : Text) :
    afterAnyCase? word (t ++ w) = some (rest ++ w) := by
  induction word generalizing t with
  | nil => rw [Option.some.inj h]; rfl
  | cons c word ih =>
      cases t with
      | nil => cases h
      | cons s t =>
          rw [afterAnyCase?] at h
          rw [List.cons_append, afterAnyCase?]
          split at h
          · rename_i hs
            rw [if_pos hs, ih h]
          · cases h

theorem isColonSwitch_append {t : Text} (h : isColonSwitch t) (w : Text) :
    isColonSwitch (t ++ w) := by
  match t, h with
  | colon :: first :: rest, h =>
      simp only [isColonSwitch, Bool.and_eq_true, decide_eq_true_eq] at h
      have hne : (rest.dropWhile fun s => s.isWord || decide (s = .char '-')) ≠ [] := by
        intro hnil
        rw [hnil] at h
        cases h.2
      simp only [List.cons_append, isColonSwitch, Bool.and_eq_true, decide_eq_true_eq]
      refine ⟨h.1, ?_⟩
      rw [List.dropWhile_append, if_neg (by simpa using hne), List.head?_append_of_ne_nil _ hne]
      exact h.2

theorem isToolSpeech_append_return {t : Text} (h : isToolSpeech t) :
    isToolSpeech (t ++ returnText) := by
  simp only [isToolSpeech, Bool.or_eq_true] at h ⊢
  rcases h with ((((h | h) | h) | h) | h) | h
  · simp [isLinterSwitch_append_return h]
  · simp [isEncodingPragma_append_return h]
  · simp [isWordPragma_append_return h]
  · have hmark : isCoverageMark (t ++ returnText) := by
      obtain ⟨rest, rfl⟩ := startsWith_iff.1 h
      exact startsWith_iff.2 ⟨rest ++ returnText, List.append_assoc _ _ _⟩
    simp [hmark]
  · have hswitch : isCoverageSwitch (t ++ returnText) := by
      obtain ⟨rest, hrest, hends⟩ := (Option.any_eq_true _ _).1 h
      rw [isCoverageSwitch, afterAnyCase?_append hrest]
      exact endsWord_append_return hends
    simp [hswitch]
  · simp [isColonSwitch_append h]

/-- What is accepted somewhere is accepted somewhere in a longer text. -/
theorem somewhere_append {p q : Bool → Text → Bool} {w : Text}
    (hpq : ∀ inWord t, p inWord t → q inWord (t ++ w)) {inWord : Bool} {t : Text}
    (h : somewhere p inWord t) : somewhere q inWord (t ++ w) := by
  have hhere : ∀ (i : Bool) (u : Text), q i u → somewhere q i u := by
    intro i u hu
    cases u with
    | nil => exact hu
    | cons s u => rw [somewhere, hu, Bool.true_or]
  induction t generalizing inWord with
  | nil => exact hhere _ _ (hpq _ _ h)
  | cons s t ih =>
      rw [somewhere, Bool.or_eq_true, Bool.and_eq_true] at h
      rcases h with h | ⟨hs, h⟩
      · exact hhere _ _ (hpq _ _ h)
      · rw [List.cons_append, somewhere, hs, ih h]
        simp

theorem isEditorPragma_append {t : Text} (h : isEditorPragma t) (w : Text) :
    isEditorPragma (t ++ w) := by
  refine somewhere_append (fun _ t h => ?_) h
  obtain ⟨t, ht, h⟩ := (Option.any_eq_true _ _).1 h
  rw [after?_append_right ht]
  refine somewhere_append (fun inWord t h => ?_) h
  rw [Bool.and_eq_true] at h ⊢
  obtain ⟨t, ht, hassign⟩ := (Option.any_eq_true _ _).1 h.2
  obtain ⟨u, hu, hmark⟩ := (Option.any_eq_true _ _).1 hassign
  rw [after?_append_right ht, Option.any_some, afterAssignment?_append hu, Option.any_some]
  refine ⟨h.1, somewhere_append (fun _ t h => ?_) hmark⟩
  obtain ⟨rest, rfl⟩ := startsWith_iff.1 h
  exact startsWith_iff.2 ⟨rest ++ w, List.append_assoc _ _ _⟩

/-- A directive with a carriage return after it is a directive. -/
theorem isDirective_append_return {line : Text} (h : isDirective line) :
    isDirective (line ++ returnText) := by
  rw [isDirective, Bool.or_eq_true] at h ⊢
  rcases h with h | h
  · obtain ⟨said, hsaid, hspeech⟩ := (Option.any_eq_true _ _).1 h
    have hne : said ≠ [] := by
      rintro rfl
      exact absurd hspeech (by decide)
    rw [content?_append hsaid hne]
    exact Or.inl (isToolSpeech_append_return hspeech)
  · obtain ⟨rest, hrest, hpragma⟩ := (Option.any_eq_true _ _).1 h
    rw [afterSign?_append hrest]
    exact Or.inr (isEditorPragma_append hpragma _)

/-! ## Markers -/

theorem isTag_of_append_return {t : Text} (h : isTag (t ++ returnText)) : isTag t := by
  obtain ⟨rest, hrest, hname⟩ := (Option.any_eq_true _ _).1 h
  cases t with
  | nil => cases hrest
  | cons first t =>
      obtain ⟨hfirst, rfl⟩ := List.cons.inj (after?_eq_some_iff.1 hrest)
      have hself : after? "@" (first :: t) = some t := after?_eq_some_iff.2 (by rw [hfirst]; rfl)
      rw [isTag, hself, Option.any_some]
      cases t with
      | nil => exact absurd hname (by decide)
      | cons s t =>
          -- An exclamation mark may stand before the name.
          by_cases hs : s = .char '!'
          · subst hs
            cases t with
            | nil => exact absurd hname (by decide)
            | cons r t => exact hname
          · have hnone : ∀ u : Text, after? "!" (s :: u) = none := by
              intro u
              rw [Option.eq_none_iff_forall_ne_some]
              exact fun more hmore => hs (List.cons.inj (after?_eq_some_iff.1 hmore)).1
            simp only [hnone, Option.getD_none]
            have hsame : after? "!" ((s :: t).append returnText) = none := hnone (t ++ returnText)
            simp only [hsame, Option.getD_none] at hname
            exact hname

theorem startsWith_arrow_of_append_return {t : Text} (h : (t ++ returnText).startsWith "->") :
    t.startsWith "->" := by
  match t, h with
  | [], h => exact absurd h (by decide)
  | [s], h =>
      obtain ⟨rest, hrest⟩ := startsWith_iff.1 h
      exact absurd (List.cons.inj (List.cons.inj hrest).2).1 (by decide)
  | s :: r :: t, h =>
      obtain ⟨rest, hrest⟩ := startsWith_iff.1 h
      obtain ⟨hs, htail⟩ := List.cons.inj hrest
      obtain ⟨hr, -⟩ := List.cons.inj htail
      exact startsWith_iff.2 ⟨t, by rw [hs, hr]; rfl⟩

theorem isHeading_of_append_return {t : Text} (h : isHeading (t ++ returnText)) : isHeading t := by
  cases t with
  | nil => exact absurd h (by decide)
  | cons plus t =>
      simp only [List.cons_append, isHeading, Bool.and_eq_true, decide_eq_true_eq] at h ⊢
      obtain ⟨⟨hplus, hid⟩, harrow⟩ := h
      set q : Sym → Bool := fun s => decide (s ≠ .char '+') && decide (s ≠ .lineFeed) with hq
      obtain ⟨rest, hrest, harrow⟩ := (Option.any_eq_true _ _).1 harrow
      have hwhole : t ++ returnText = (t ++ returnText).takeWhile q ++ .char '+' :: rest := by
        have hdrop := after?_eq_some_iff.1 hrest
        rw [drop_length_takeWhile] at hdrop
        conv_lhs => rw [← @List.takeWhile_append_dropWhile _ q (t ++ returnText), hdrop]
        rfl
      have hrestBlank : rest.isBlank = false := by
        refine isBlank_eq_false_of_trimLeft fun hnil => ?_
        rw [hnil] at harrow
        exact absurd harrow (by decide)
      rcases List.eq_nil_or_concat' rest with rfl | ⟨front, last, rfl⟩
      · cases hrestBlank
      -- The second plus sign stands before the carriage return, so the id is the same without it.
      rw [← List.cons_append, ← List.append_assoc] at hwhole
      obtain ⟨hfront, hlast⟩ := List.append_inj' hwhole rfl
      obtain rfl : Sym.carriageReturn = last := (List.cons.inj hlast).1
      have hall : ∀ s ∈ (t ++ returnText).takeWhile q, q s := fun _ hs => List.mem_takeWhile_imp hs
      generalize (t ++ returnText).takeWhile q = id at hfront hid hall
      have htake : t.takeWhile q = id := by
        rw [hfront, List.takeWhile_append_of_pos hall, List.takeWhile_cons_of_neg (by simp [hq]),
          List.append_nil]
      have hplus' : after? "+" (t.drop id.length) = some front := by
        rw [hfront, List.drop_left]
        exact after?_eq_some_iff.2 rfl
      have hfrontBlank : Text.isBlank front = false := by
        have hreturn : Text.isBlank [Sym.carriageReturn] = true := rfl
        rwa [isBlank_append, hreturn, Bool.and_true] at hrestBlank
      refine ⟨⟨hplus, ?_⟩, ?_⟩
      · rw [htake]
        exact hid
      · rw [htake, hplus', Option.any_some]
        rw [trimLeft_append_of_not_blank hfrontBlank] at harrow
        exact startsWith_arrow_of_append_return harrow

/-- A marker is one without its carriage return as well. -/
theorem isMarker_withoutReturn {line : Text} (h : isMarker line) : isMarker line.withoutReturn := by
  rcases eq_withoutReturn_or line with heq | heq
  · rwa [← heq]
  · generalize line.withoutReturn = r at heq
    subst heq
    rw [isMarker, Bool.and_eq_true, Bool.not_eq_true'] at h ⊢
    obtain ⟨hdirective, h⟩ := h
    obtain ⟨said, hsaid, hmark⟩ := (Option.any_eq_true _ _).1 h
    refine ⟨?_, ?_⟩
    · rw [Bool.eq_false_iff] at hdirective ⊢
      exact fun hr => hdirective (isDirective_append_return hr)
    · rcases content?_return_inv hsaid with rfl | ⟨u, hu, rfl⟩
      · exact absurd hmark (by decide)
      · rw [Bool.or_eq_true] at hmark
        rw [hu, Option.any_some, Bool.or_eq_true]
        exact hmark.imp isHeading_of_append_return isTag_of_append_return

/-! ## Documentation -/

/-- A comment is documentation iff one of its lines is a marker: no directive is one. -/
theorem documents_eq_any (comment : List Text) :
    documents comment = comment.any fun l => isMarker l.withoutReturn := by
  have hleading : (leadingDirectives comment).any (fun l => isMarker l.withoutReturn) = false := by
    rw [List.any_eq_false]
    intro l hl
    have hdirective : isDirective l.withoutReturn :=
      List.mem_takeWhile_imp (p := fun l : Text => isDirective l.withoutReturn) hl
    rw [isMarker, hdirective]
    exact Bool.false_ne_true
  conv_rhs => rw [← leadingDirectives_append_body comment, List.any_append, hleading,
    Bool.false_or]
  rfl

theorem documents_mono {comment more : List Text} (h : ∀ l ∈ comment, l ∈ more)
    (hdoc : documents comment) : documents more := by
  rw [documents_eq_any, List.any_eq_true] at hdoc ⊢
  obtain ⟨l, hl, hmark⟩ := hdoc
  exact ⟨l, h l hl, hmark⟩

theorem documents_of_mem {comment : List Text} {l : Text} (hl : l ∈ comment)
    (hmark : isMarker l.withoutReturn) : documents comment := by
  rw [documents_eq_any, List.any_eq_true]
  exact ⟨l, hl, hmark⟩

end RubyDoc.Comment
