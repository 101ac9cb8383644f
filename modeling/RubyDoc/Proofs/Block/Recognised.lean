import RubyDoc.Proofs.Block.Documented
import RubyDoc.Proofs.Edit.PlanRun

/-!
# Blocks are recognised

What is written for a definition is found again as its documentation because some of its lines mark
it so: tags, the lines of attributes, and the heading if the id fits between two plus signs.  Every
such line is a marker unless it is a directive itself (`Marking.isMarker_iff`), and the settings and
the definition decide whether there is one (`block_recognised`).  A description is text like that of
any other comment.  A block of nothing else is not found again, and the next run puts another one
below it.  Nothing is said here about the heading of an id with a plus sign in it.
-/

namespace RubyDoc.Block

open Text Comment Outline Signature Analysis Syntax Edit

/-- Does the id of the definition fit between the two plus signs of a heading? -/
def FitsHeading (d : Definition) : Prop :=
  Sym.char '+' ∉ d.id ∧ Sym.lineFeed ∉ d.id

instance (d : Definition) : Decidable (FitsHeading d) :=
  inferInstanceAs (Decidable (_ ∧ _))

/-- A line that is written to mark the documentation of a definition. -/
inductive Marking (d : Definition) : Text → Prop
  | ofHeading (hid : FitsHeading d) (type : Text) :
      Marking d (("# +" : Text) ++ d.id ++ "+ -> " ++ type)
  | ofTag (t : Tag) : Marking d t.line
  | ofAttribute {s : Settings} {access : Access} {readType writeType line : Text}
      (h : line ∈ attributeLines s d access readType writeType) : Marking d line

/-- Does the method get a tag? -/
def isTagged (s : Settings) (src : Source) (d : Definition) : Bool :=
  !(visibilityTags s d).isEmpty || !(moduleFunctionTags d).isEmpty ||
    (s.emit.paramTags && !(inferredParameters s src d).isEmpty) || !(raisedTags s src d).isEmpty ||
      !(returnTags s src d []).isEmpty

/-- Is a line written that marks the documentation? -/
def IsMarked (b : Builder) (d : Definition) : Prop :=
  match d.role with
  | .attribute _ => True
  | .method _ => isTagged b.settings b.source d ∨ b.settings.emit.header ∧ FitsHeading d

/-- Is nothing written but the description? -/
def IsPlain (b : Builder) (d : Definition) : Prop :=
  d.isMethod ∧ isTagged b.settings b.source d = false ∧ b.settings.emit.header = false

/-! ## The lines that mark a block -/

section Marking

variable {d : Definition} {indent : Text} (hindent : ∀ c ∈ indent, isIndentSym c)
include hindent

theorem content?_indented (rest : Text) :
    content? (indent ++ .char '#' :: rest) = some rest.trimLeft := by
  rw [content?, afterSign?, trimLeft_append, isBlank_indent hindent, if_pos rfl]
  rfl

omit hindent in
theorem isHeading_of_fits (hid : FitsHeading d) (type : Text) :
    isHeading (.char '+' :: (d.id ++ (("+ -> " : Text) ++ type))) := by
  have hsym : ∀ s ∈ d.id, (decide (s ≠ Sym.char '+') && decide (s ≠ Sym.lineFeed)) = true := by
    intro s hs
    have hplus : s ≠ Sym.char '+' := fun heq => hid.1 (heq ▸ hs)
    have hfeed : s ≠ Sym.lineFeed := fun heq => hid.2 (heq ▸ hs)
    simp [hplus, hfeed]
  have htake : (d.id ++ (("+ -> " : Text) ++ type)).takeWhile
      (fun s => s ≠ .char '+' && s ≠ .lineFeed) = d.id := by
    rw [List.takeWhile_append_of_pos hsym]
    exact List.append_nil _
  have hne : List.isEmpty d.id = false := by
    rw [List.isEmpty_eq_false_iff, Definition.id, memberId]
    cases d.scope <;> simp [Scope.separator, Text.ofString]
  rw [isHeading, htake, hne, List.drop_left]
  rfl

omit hindent in
/-- What a tag says begins like a tag. -/
theorem isTag_tagLine (t : Tag) :
    ∃ rest : Text, t.line = .char '#' :: rest ∧ isTag rest.trimLeft := by
  cases t with
  | visibility v => cases v <;> exact ⟨_, rfl, rfl⟩
  | _ => exact ⟨_, rfl, rfl⟩

omit hindent in
theorem isTag_attributeLine {s : Settings} {access : Access} {readType writeType line : Text}
    (h : line ∈ attributeLines s d access readType writeType) :
    ∃ rest : Text, line = .char '#' :: rest ∧ isTag rest.trimLeft := by
  simp only [attributeLines, List.mem_append, List.mem_singleton, List.mem_ite_nil_right] at h
  rcases h with ((rfl | ⟨-, rfl⟩) | ⟨-, rfl⟩) | ⟨-, rfl⟩
  · exact ⟨_, rfl, rfl⟩
  · cases d.visibility <;> exact ⟨_, rfl, rfl⟩
  · exact ⟨_, rfl, rfl⟩
  · exact ⟨_, rfl, rfl⟩

omit hindent in
/-- A line that is written to mark documentation says a heading or a tag. -/
theorem Marking.exists_said {line : Text} (h : Marking d line) :
    ∃ rest : Text, line = .char '#' :: rest ∧ (isHeading rest.trimLeft || isTag rest.trimLeft) := by
  cases h with
  | ofHeading hid type =>
      refine ⟨_, by simp only [List.append_assoc]; rfl, Bool.or_eq_true_iff.2 (Or.inl ?_)⟩
      exact isHeading_of_fits hid type
  | ofTag t =>
      obtain ⟨rest, hline, htag⟩ := isTag_tagLine t
      exact ⟨rest, hline, Bool.or_eq_true_iff.2 (Or.inr htag)⟩
  | ofAttribute h =>
      obtain ⟨rest, hline, htag⟩ := isTag_attributeLine h
      exact ⟨rest, hline, Bool.or_eq_true_iff.2 (Or.inr htag)⟩

/-- **A line that is written to mark documentation does so unless it is a directive.** -/
theorem Marking.isMarker_iff {line : Text} (h : Marking d line) :
    isMarker (indent ++ line) ↔ isDirective (indent ++ line) = false := by
  obtain ⟨rest, rfl, hsaid⟩ := h.exists_said
  rw [isMarker, content?_indented hindent, Option.any_some, hsaid, Bool.and_true,
    Bool.not_eq_true']

end Marking

/-! ## When there is such a line -/

section Tagged

variable {s : Settings} {src : Source} {d : Definition} {f : Finding}

theorem returnTags_eq_nil_iff (type other : Text) :
    returnTags s src d type = [] ↔ returnTags s src d other = [] := by
  rw [returnTags, returnTags, List.append_eq_nil_iff, List.append_eq_nil_iff]
  split
  · exact iff_of_false (fun h => List.cons_ne_nil _ _ h.1) fun h => List.cons_ne_nil _ _ h.1
  · rfl

theorem paramTags_eq_nil_iff {tags : List Tag} (h : paramTags s src d f = .ok tags) :
    tags = [] ↔ s.emit.paramTags = false ∨ inferredParameters s src d = [] := by
  obtain ⟨hleft, hright⟩ := paramTags_eq_ok h
  constructor
  · rintro rfl
    by_contra hneither
    rw [not_or, Bool.not_eq_false] at hneither
    obtain ⟨p, hp⟩ := List.exists_mem_of_ne_nil _ hneither.2
    obtain ⟨t, ht, -⟩ := hleft hneither.1 p hp
    cases ht
  · intro hnone
    refine List.eq_nil_iff_forall_not_mem.2 fun t ht => ?_
    obtain ⟨hemit, p, hp, -⟩ := hright t ht
    rcases hnone with hoff | hnil
    · rw [hoff] at hemit
      cases hemit
    · rw [hnil] at hp
      cases hp

/-- Whether a method gets a tag does not depend on what is found for it. -/
theorem isTagged_eq_false_iff {type : Text} {tags : List Tag}
    (h : tagsWith s src d f (returnTags s src d type) = .ok tags) :
    isTagged s src d = false ↔ tags = [] := by
  obtain ⟨params, hparams, rfl⟩ := tagsWith_eq_ok h
  simp only [isTagged, Bool.or_eq_false_iff, Bool.and_eq_false_iff, Bool.not_eq_false',
    List.isEmpty_iff, List.append_eq_nil_iff, paramTags_eq_nil_iff hparams,
    returnTags_eq_nil_iff type []]

end Tagged

section Drafts

variable {b : Builder} {d : Definition} {f : Finding} {raw : List Text}

theorem ne_blank_of_marking {line : Text} (h : Marking d line) : line ≠ blank := by
  rintro rfl
  obtain ⟨rest, hline, hsaid⟩ := h.exists_said
  obtain rfl : [] = rest := (List.cons.inj hline).2
  cases hsaid

/-- A marked block has a line that is written to mark it. -/
theorem IsMarked.exists_marking (h : IsMarked b d) (hraw : Drafts b d f raw) :
    ∃ line ∈ raw, Marking d line := by
  cases hraw with
  | @ofAttribute access hrole readType writeType =>
      have hfirst : "# @!attribute [" ++ access.letters ++ "] " ++ d.name ∈
          attributeLines b.settings d access readType writeType := List.mem_cons_self
      exact ⟨_, hfirst, .ofAttribute hfirst⟩
  | ofMethod hrole hlines =>
      obtain ⟨type, tags, -, htags, rfl⟩ := methodLines_eq_ok hlines
      rw [IsMarked, hrole] at h
      rcases h with htagged | ⟨hemit, hid⟩
      · have hne : tags ≠ [] := by
          intro hnil
          rw [(isTagged_eq_false_iff htags).2 hnil] at htagged
          cases htagged
        obtain ⟨t, ht⟩ := List.exists_mem_of_ne_nil tags hne
        exact ⟨t.line, List.mem_append_right _ (List.mem_map_of_mem ht), .ofTag t⟩
      · refine ⟨_, ?_, .ofHeading hid type⟩
        rw [headingLines, if_pos hemit]
        exact List.mem_append_left _ (List.mem_append_left _ List.mem_cons_self)

/-- A plain block is the description. -/
theorem IsPlain.eq_descriptionLines (h : IsPlain b d) (hraw : Drafts b d f raw) :
    raw = descriptionLines b.settings d := by
  obtain ⟨hmethod, htagged, hemit⟩ := h
  cases hraw with
  | ofAttribute hrole readType writeType =>
      rw [Definition.isMethod, hrole] at hmethod
      cases hmethod
  | ofMethod hrole hlines =>
      obtain ⟨type, tags, -, htags, rfl⟩ := methodLines_eq_ok hlines
      rw [(isTagged_eq_false_iff htags).1 htagged, headingLines, hemit,
        if_neg Bool.false_ne_true, List.map_nil, List.append_nil, List.nil_append]

end Drafts

/-! ## Found again -/

/-- Is the block found as documentation where it stands above a line, with at most comment lines and
then blank lines between the two?  New lines end in `e`. -/
def IsFound (block : List Text) : Prop :=
  ∀ (above comment gap : List Text) (l : Text) (below : List Text) (e : Text),
    (∀ m ∈ above ++ comment ++ gap, Sym.lineFeed ∉ m) → (∀ m ∈ comment, isComment m) →
    (∀ m ∈ gap, m.isBlank) → (e = [] ∨ e = [Sym.carriageReturn]) →
    let ls := above ++ (block.map (· ++ e) ++ comment) ++ gap
    (documentationAbove? (ofLines (ls ++ l :: below)) (closed ls).length).isSome ∧
      (removalAbove? (ofLines (ls ++ l :: below)) (closed ls).length).isSome

/-- A block of comment lines with a marker is found. -/
theorem isFound_of_marker {block : List Text} (hcomment : ∀ m ∈ block, isComment m)
    (hlf : ∀ m ∈ block, Sym.lineFeed ∉ m) {line : Text} (hline : line ∈ block)
    (hmarker : isMarker line) : IsFound block := by
  intro above comment gap l below e hrest hbelow hgap hend ls
  have hrun : ∀ m ∈ block.map (· ++ e) ++ comment, isComment m := by
    intro m hm
    rcases List.mem_append.1 hm with hm | hm
    · obtain ⟨n, hn, rfl⟩ := List.mem_map.1 hm
      exact isComment_append (hcomment n hn) e
    · exact hbelow m hm
  have hfeeds : ∀ m ∈ ls, Sym.lineFeed ∉ m := by
    intro m hm
    simp only [ls, List.mem_append, List.mem_map] at hm hrest
    rcases hm with (hm | ⟨n, hn, rfl⟩ | hm) | hm
    · exact hrest m (Or.inl (Or.inl hm))
    · rcases hend with rfl | rfl
      · rw [List.append_nil]
        exact hlf n hn
      · simpa [Sym.lineFeed, Sym.carriageReturn] using hlf n hn
    · exact hrest m (Or.inl (Or.inr hm))
    · exact hrest m (Or.inr hm)
  -- The marker stays one whatever the line ends in, and it is in the comment above the line.
  have hmarks : isMarker (line ++ e).withoutReturn := by
    rcases withoutReturn_append_end hend line with hsaid | hsaid
    · rwa [hsaid]
    · rw [hsaid]
      exact isMarker_withoutReturn hmarker
  have hdoc : documents (lastComment ls) :=
    documents_of_mem (mem_lastComment_of_mem_run above hrun hgap
      (List.mem_append_left _ (List.mem_map_of_mem hline))) hmarks
  refine ⟨?_, ?_⟩
  · obtain ⟨run, hfound, -⟩ := documentationAbove?_of_documents (split_self ls) hfeeds l below hdoc
    rw [hfound]
    rfl
  · rw [removalAbove?_ofLines (split_self ls) hfeeds l below, if_pos hdoc]
    rfl

/-- **How a block is recognised.**  Every tag, line of an attribute and fitting heading in it is a
marker unless it is a directive, and by any of them the block is found above the definition.  A
marked definition has such a line.  The block of a plain one is its description. -/
theorem block_recognised {b : Builder} {d : Definition} {indent : Text} {l : Lookups}
    {block : List Text} (hindent : ∀ c ∈ indent, isIndentSym c)
    (hblock : ((b.block d indent).run l).1 = block) (hne : block ≠ []) :
    (∀ line, Marking d line → indent ++ line ∈ block → isDirective (indent ++ line) = false →
      isMarker (indent ++ line) ∧ ((∀ m ∈ block, Sym.lineFeed ∉ m) → IsFound block)) ∧
    (IsMarked b d → ∃ line, Marking d line ∧ indent ++ line ∈ block) ∧
    (IsPlain b d →
      block = [indent ++ ("# " ++ b.settings.messageFor d.scope d.visibility)]) := by
  have hcomment : ∀ m ∈ block, isComment m := by
    intro m hm
    rw [← hblock] at hm
    obtain ⟨rest, rfl⟩ := signed_of_mem_block hm
    exact isComment_indented hindent rest
  obtain ⟨raw, hlines, hraw⟩ : ∃ raw, block = (Builder.dropBlankEnd raw).map (indent ++ ·) ∧
      Drafts b d (Lookups.find b.provider (keyOf d) l).1 raw := by
    have hlines : block = (Builder.dropBlankEnd ((b.rawBlock d).run l).1).map (indent ++ ·) :=
      hblock.symm
    refine ⟨_, hlines, (Builder.rawBlock_result l).resolve_left fun hnil => hne ?_⟩
    rw [hlines, hnil]
    rfl
  refine ⟨fun line hmarking hline hdirective => ?_, fun hmarked => ?_, fun hplain => ?_⟩
  · have hmarker := (hmarking.isMarker_iff hindent).2 hdirective
    exact ⟨hmarker, fun hlf => isFound_of_marker hcomment hlf hline hmarker⟩
  · obtain ⟨line, hline, hmarking⟩ := hmarked.exists_marking hraw
    refine ⟨line, hmarking, ?_⟩
    rw [hlines]
    exact List.mem_map_of_mem (mem_dropBlankEnd_of_ne hline (ne_blank_of_marking hmarking))
  · -- Nothing but the description is left, and it is there since the block is not empty.
    rw [hplain.eq_descriptionLines hraw, descriptionLines] at hlines
    by_cases hemit : b.settings.emit.description
    · have hsaid := ne_blank_of_append (b.settings.messageFor d.scope d.visibility)
      rw [if_pos hemit] at hlines
      rw [hlines]
      simp [Builder.dropBlankEnd, hsaid]
    · rw [if_neg hemit] at hlines
      exact absurd hlines hne

/-- The block of a bare method is found by its heading and its tag. -/
theorem block_recognised_go :
    (∀ c ∈ ([] : Text), isIndentSym c) ∧
      ((plainGo.block (bareMethod "go" 0) []).run {}).1 = bareBlock ∧ bareBlock ≠ [] ∧
      (∃ line ∈ bareBlock, isMarker line) ∧ IsFound bareBlock := by
  have hindent : ∀ c ∈ ([] : Text), isIndentSym c := fun c hc => absurd hc List.not_mem_nil
  have hblock : ((plainGo.block (bareMethod "go" 0) []).run {}).1 = bareBlock := rfl
  obtain ⟨hrecognised, hmarked, -⟩ := block_recognised hindent hblock (by decide)
  obtain ⟨line, hmarking, hline⟩ := hmarked (Or.inl rfl)
  have hdirective : ∀ m ∈ bareBlock, isDirective m = false := by decide
  obtain ⟨hmarker, hfound⟩ := hrecognised line hmarking hline (hdirective _ hline)
  exact ⟨hindent, hblock, by decide, ⟨_, hline, hmarker⟩, hfound (by decide)⟩

/-! ## Blocks that are not recognised -/

/-- The bare method `go`; blocks have nothing but the description. -/
def describedGo : Builder :=
  { plainGo with settings := { emit := { header := false, returnTag := false } } }

/-- The source with the description above the method, which starts at the byte 24. -/
def describedAboveGo : Source :=
  .ofText "# Method documentation.\ndef go\nend\n"

/-- The plan that puts the description at an offset. -/
def describeGo (place : Nat) : Plan where
  start := place
  stop := place
  lines := ["# Method documentation."]
  indent := []

/-- The bare method `go` with a fallback type that speaks to editors; blocks have nothing but the
result. -/
def pragmaGo : Builder :=
  { plainGo with
    settings := {
      emit := { header := false, description := false }
      inference := { fallback := "-*- coding: utf-8 -*-" } } }

/-- **A description alone is not recognised, and neither is a directive.**  Replacing puts a second
description below the first. -/
theorem block_not_recognised :
    (((describedGo.block (bareMethod "go" 0) []).run {}).1 = [("# Method documentation." : Text)] ∧
      isMarker "# Method documentation." = false ∧
      (planAll describedGo .replace [bareMethod "go" 0]).run.run {} = (.ok [describeGo 0], {}) ∧
      apply describedGo.source.text [describeGo 0] = describedAboveGo.text ∧
      (planAll { describedGo with source := describedAboveGo } .replace
        [bareMethod "go" 24]).run.run {} = (.ok [describeGo 24], {}) ∧
      apply describedAboveGo.text [describeGo 24] =
        "# Method documentation.\n# Method documentation.\ndef go\nend\n") ∧
    ((pragmaGo.block (bareMethod "go" 0) []).run {}).1 =
        [("# @return [-*- coding: utf-8 -*-]" : Text)] ∧
      isMarker "# @return [-*- coding: utf-8 -*-]" = false := by
  refine ⟨⟨rfl, by decide, ?_, ?_, ?_, ?_⟩, rfl, by decide⟩
  · rw [planAll_singleton]
    rfl
  · rw [apply, ranges_singleton]
    rfl
  · rw [planAll_singleton]
    rfl
  · rw [apply, ranges_singleton]
    rfl

end RubyDoc.Block
