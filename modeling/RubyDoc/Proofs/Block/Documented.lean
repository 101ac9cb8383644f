import RubyDoc.Proofs.Analysis.Raised
import RubyDoc.Proofs.Block.Builder
import RubyDoc.Proofs.Block.Existing

/-!
# Documented definitions

A comment documents a definition when it leaves nothing to add, whatever the lookups find.  Names
alone decide this, types play no part.  What a builder writes documents the definition, whether it
is a whole block (`documented_of_drafts`) or what an earlier comment lacked
(`documented_of_supplements`), and nothing is added to a comment that documents the definition
(`Documented.supplements_eq_nil`).
-/

namespace RubyDoc.Block

open Text Comment Outline Signature Analysis Syntax

/-! ## The tags of a method -/

theorem mem_of_mapM_eq_ok {ε α β : Type} {f : α → Except ε β} {as : List α} {bs : List β}
    (h : as.mapM f = .ok bs) :
    (∀ a ∈ as, ∃ b ∈ bs, f a = .ok b) ∧ ∀ b ∈ bs, ∃ a ∈ as, f a = .ok b := by
  induction as generalizing bs with
  | nil =>
      obtain rfl : [] = bs := Except.ok.inj h
      exact ⟨fun a ha => absurd ha List.not_mem_nil, fun b hb => absurd hb List.not_mem_nil⟩
  | cons a as ih =>
      rw [List.mapM_cons] at h
      obtain ⟨b, hb, h⟩ := Lookups.bind_eq_ok h
      obtain ⟨bs, hbs, h⟩ := Lookups.bind_eq_ok h
      obtain rfl := Except.ok.inj h
      obtain ⟨hleft, hright⟩ := ih hbs
      refine ⟨List.forall_mem_cons.2 ⟨⟨b, List.mem_cons_self, hb⟩, fun c hc => ?_⟩,
        List.forall_mem_cons.2 ⟨⟨a, List.mem_cons_self, hb⟩, fun c hc => ?_⟩⟩
      · obtain ⟨c', hc', heq⟩ := hleft c hc
        exact ⟨c', List.mem_cons_of_mem _ hc', heq⟩
      · obtain ⟨c', hc', heq⟩ := hright c hc
        exact ⟨c', List.mem_cons_of_mem _ hc', heq⟩

section Tags

variable {s : Settings} {src : Source} {d : Definition} {f : Finding}

theorem paramTag_eq_ok {p : Parameter} {t : Tag} (h : paramTag s f p = .ok t) :
    ∃ type, t = .param p.name type := by
  obtain ⟨type, -, h⟩ := Lookups.bind_eq_ok h
  exact ⟨type.getD p.type, (Except.ok.inj h).symm⟩

/-- There is a tag for every parameter, if they get tags at all, and no other. -/
theorem paramTags_eq_ok {tags : List Tag} (h : paramTags s src d f = .ok tags) :
    (s.emit.paramTags → ∀ p ∈ inferredParameters s src d, ∃ t ∈ tags, paramTag s f p = .ok t) ∧
      ∀ t ∈ tags, s.emit.paramTags ∧ ∃ p ∈ inferredParameters s src d, paramTag s f p = .ok t := by
  rw [paramTags] at h
  split at h
  · rename_i hemit
    obtain ⟨hleft, hright⟩ := mem_of_mapM_eq_ok h
    exact ⟨fun _ => hleft, fun t ht => ⟨hemit, hright t ht⟩⟩
  · rename_i hemit
    obtain rfl : [] = tags := Except.ok.inj h
    exact ⟨fun h => absurd h hemit, fun t ht => absurd ht List.not_mem_nil⟩

theorem tagsWith_eq_ok {returns tags : List Tag} (h : tagsWith s src d f returns = .ok tags) :
    ∃ params, paramTags s src d f = .ok params ∧
      tags = visibilityTags s d ++ moduleFunctionTags d ++ params ++ raisedTags s src d ++
        returns := by
  obtain ⟨params, hparams, h⟩ := Lookups.bind_eq_ok h
  exact ⟨params, hparams, (Except.ok.inj h).symm⟩

/-- What gives a method a tag, besides the results that are given tags. -/
inductive GivesTag (s : Settings) (src : Source) (d : Definition) (f : Finding)
    (returns : List Tag) : Tag → Prop
  | visibility (h : d.visibility ≠ .pub) : GivesTag s src d f returns (.visibility d.visibility)
  | moduleFunction (copy : Visibility) : GivesTag s src d f returns (.moduleFunction d.name copy)
  | param {p : Parameter} {t : Tag} (hp : p ∈ inferredParameters s src d)
      (h : paramTag s f p = .ok t) : GivesTag s src d f returns t
  | raised {error : Text} (h : error ∈ raisedTypes src d.node) :
      GivesTag s src d f returns (.raised error)
  | result {t : Tag} (h : t ∈ returns) : GivesTag s src d f returns t

theorem givesTag_of_tagsWith {returns tags : List Tag}
    (h : tagsWith s src d f returns = .ok tags) : ∀ t ∈ tags, GivesTag s src d f returns t := by
  obtain ⟨params, hparams, rfl⟩ := tagsWith_eq_ok h
  intro t ht
  simp only [List.mem_append] at ht
  rcases ht with (((ht | ht) | ht) | ht) | ht
  · rw [visibilityTags, List.mem_ite_nil_right, List.mem_singleton] at ht
    obtain ⟨hemit, rfl⟩ := ht
    simp only [Bool.and_eq_true, decide_eq_true_eq] at hemit
    exact .visibility hemit.2
  · rw [moduleFunctionTags, Option.mem_toList, Option.map_eq_some_iff] at ht
    obtain ⟨copy, -, rfl⟩ := ht
    exact .moduleFunction copy
  · obtain ⟨-, p, hp, htag⟩ := (paramTags_eq_ok hparams).2 t ht
    exact .param hp htag
  · rw [raisedTags, List.mem_ite_nil_right, List.mem_map] at ht
    obtain ⟨-, error, herror, rfl⟩ := ht
    exact .raised herror
  · exact .result ht

theorem fits_of_mem_returnTags {type : Text} : ∀ t ∈ returnTags s src d type, t.Fits := by
  intro t ht
  simp only [returnTags, List.mem_append, List.mem_ite_nil_right, List.mem_singleton,
    List.mem_map] at ht
  rcases ht with ⟨-, rfl⟩ | ⟨-, branch, -, rfl⟩
  · trivial
  · trivial

/-- With a result in the comment all results are covered. -/
theorem covers_of_mem_returnTags {e : Existing} (hreturn : e.hasReturn) {type : Text} :
    ∀ t ∈ returnTags s src d type, e.covers t := by
  intro t ht
  simp only [returnTags, List.mem_append, List.mem_ite_nil_right, List.mem_singleton,
    List.mem_map] at ht
  rcases ht with ⟨-, rfl⟩ | ⟨-, branch, -, rfl⟩
  · exact hreturn
  · exact hreturn

/-- Results are covered as a whole or not at all, whatever the type. -/
theorem covers_returnTags {e : Existing} {type : Text}
    (h : ∀ t ∈ returnTags s src d type, e.covers t) (other : Text) :
    ∀ t ∈ returnTags s src d other, e.covers t := by
  intro t ht
  rw [returnTags, List.mem_append, List.mem_ite_nil_right, List.mem_singleton] at ht
  rcases ht with ⟨hemit, rfl⟩ | ht
  · refine h (.returned type) ?_
    rw [returnTags, if_pos hemit]
    exact List.mem_append_left _ (List.mem_singleton_self _)
  · exact h t (List.mem_append_right _ ht)

end Tags

/-- Does the comment have all tags of the method? -/
structure HasTags (s : Settings) (src : Source) (d : Definition) (e : Existing) : Prop where
  visibility : ∀ t ∈ visibilityTags s d, e.covers t
  moduleFunction : ∀ t ∈ moduleFunctionTags d, e.covers t
  params : s.emit.paramTags → ∀ p ∈ inferredParameters s src d, p.name ∈ e.params
  raised : ∀ t ∈ raisedTags s src d, e.covers t
  returns : ∀ type, ∀ t ∈ returnTags s src d type, e.covers t

section HasTags

variable {s : Settings} {src : Source} {d : Definition} {f : Finding} {e : Existing}
  {returns tags : List Tag}

theorem hasTags_of_covers (htags : tagsWith s src d f returns = .ok tags)
    (hreturns : e.hasReturn ∨ ∃ type, returns = returnTags s src d type)
    (h : ∀ t ∈ tags, e.covers t) : HasTags s src d e := by
  obtain ⟨params, hparams, rfl⟩ := tagsWith_eq_ok htags
  simp only [List.mem_append, or_imp, forall_and] at h
  obtain ⟨⟨⟨⟨hvisibility, hnote⟩, hcovered⟩, hraised⟩, hresults⟩ := h
  refine ⟨hvisibility, hnote, fun hemit p hp => ?_, hraised, fun type => ?_⟩
  · obtain ⟨t, ht, htag⟩ := (paramTags_eq_ok hparams).1 hemit p hp
    obtain ⟨type, rfl⟩ := paramTag_eq_ok htag
    exact List.contains_iff_mem.1 (hcovered _ ht)
  · rcases hreturns with hreturn | ⟨first, rfl⟩
    · exact covers_of_mem_returnTags hreturn
    · exact covers_returnTags hresults type

theorem HasTags.covers (h : HasTags s src d e) (htags : tagsWith s src d f returns = .ok tags)
    (hreturns : returns = [] ∨ ∃ type, returns = returnTags s src d type) :
    ∀ t ∈ tags, e.covers t := by
  obtain ⟨params, hparams, rfl⟩ := tagsWith_eq_ok htags
  simp only [List.mem_append, or_imp, forall_and]
  refine ⟨⟨⟨⟨h.visibility, h.moduleFunction⟩, fun t ht => ?_⟩, h.raised⟩, ?_⟩
  · obtain ⟨hemit, p, hp, htag⟩ := (paramTags_eq_ok hparams).2 t ht
    obtain ⟨type, rfl⟩ := paramTag_eq_ok htag
    exact List.contains_iff_mem.2 (h.params hemit p hp)
  · rcases hreturns with rfl | ⟨type, rfl⟩
    · exact fun t ht => absurd ht List.not_mem_nil
    · exact h.returns type

end HasTags

/-! ## Documented definitions -/

/-- Does the comment leave nothing to add for the definition? -/
inductive Documented (b : Builder) (d : Definition) (e : Existing) : Prop
  | ofMethod {copy : Option Visibility} (hrole : d.role = .method copy)
      (h : HasTags b.settings b.source d e) : Documented b d e
  | ofAttribute {access : Access} (hrole : d.role = .attribute access)
      (h : d.name ∈ e.attributes) : Documented b d e

section Documented

variable {b : Builder} {d : Definition} {f : Finding} {e : Existing} {raw : List Text}

variable {src' : Source} {d' : Definition}

theorem Drafts.of_alike (ha : Alike b.settings b.source d src' d')
    (h : Drafts { b with source := src' } d' f raw) : Drafts b d f raw := by
  cases h with
  | ofMethod hrole h =>
      rw [ha.role] at hrole
      rw [ha.methodLines_eq] at h
      exact .ofMethod hrole h
  | ofAttribute hrole readType writeType =>
      rw [ha.role] at hrole
      rw [ha.attributeLines_eq]
      exact .ofAttribute hrole readType writeType

theorem Supplements.of_alike (ha : Alike b.settings b.source d src' d')
    (h : Supplements { b with source := src' } d' f e raw) : Supplements b d f e raw := by
  cases h with
  | ofMethod hrole h =>
      rw [ha.role] at hrole
      rw [ha.missingTags_eq] at h
      exact .ofMethod hrole h
  | known hrole h =>
      rw [ha.role] at hrole
      rw [ha.name] at h
      exact .known hrole h
  | ofAttribute hrole h readType writeType =>
      rw [ha.role] at hrole
      rw [ha.name] at h
      rw [ha.attributeLines_eq]
      exact .ofAttribute hrole h readType writeType

/-- Nothing is added to a comment that documents the definition. -/
theorem Documented.supplements_eq_nil (h : Documented b d e) (hraw : Supplements b d f e raw) :
    raw = [] := by
  cases hraw with
  | known _ _ => rfl
  | ofAttribute hrole hnew readType writeType =>
      cases h with
      | ofMethod hmethod h =>
          rw [hmethod] at hrole
          cases hrole
      | ofAttribute hrole h => exact absurd h hnew
  | ofMethod hrole hmissing =>
      cases h with
      | ofAttribute hattribute h =>
          rw [hattribute] at hrole
          cases hrole
      | ofMethod hrole h =>
          obtain ⟨returns, tags, htags, rfl, hreturns⟩ := missingTags_eq_ok hmissing
          have hreturns := hreturns.imp_right (Exists.imp fun _ h => h.1)
          have hnone : tags.filter (fun t => !e.covers t) = [] := by
            rw [List.filter_eq_nil_iff]
            intro t ht
            rw [h.covers htags (hreturns.imp_left And.right) t ht]
            exact Bool.false_ne_true
          rw [hnone]
          rfl

/-! ## What is written documents -/

/-- Can what is written for the definition be read back when `f` is found for it? -/
structure ReadsBack (b : Builder) (d : Definition) (f : Finding) : Prop where
  paramName : ∀ p ∈ inferredParameters b.settings b.source d, IsName p.name
  paramType : ∀ p ∈ inferredParameters b.settings b.source d, ∀ name type,
    paramTag b.settings f p = .ok (.param name type) → Sym.char ']' ∉ type
  attributeName : ∀ access, d.role = .attribute access → IsName d.name
  raised : ∀ error ∈ raisedTypes b.source d.node, IsListable error

theorem ReadsBack.fits (h : ReadsBack b d f) {returns tags : List Tag}
    (htags : tagsWith b.settings b.source d f returns = .ok tags)
    (hreturns : returns = [] ∨ ∃ type, returns = returnTags b.settings b.source d type) :
    ∀ t ∈ tags, t.Fits := by
  intro t ht
  cases givesTag_of_tagsWith htags t ht with
  | visibility hv => exact hv
  | moduleFunction copy => trivial
  | param hp htag =>
      obtain ⟨type, rfl⟩ := paramTag_eq_ok htag
      exact ⟨h.paramName _ hp, h.paramType _ hp _ _ htag⟩
  | raised herror => exact ⟨ne_nil_of_mem_raisedTypes herror, h.raised _ herror⟩
  | result ht =>
      rcases hreturns with rfl | ⟨type, rfl⟩
      · cases ht
      · exact fits_of_mem_returnTags _ ht

theorem mem_joining {lines : List Text} {line : Text} (h : line ∈ lines) :
    line ∈ joining e lines := by
  rw [joining]
  split
  · exact h
  · exact List.mem_cons_of_mem _ h

/-- Only blank lines are dropped. -/
theorem mem_dropBlankEnd_of_ne {lines : List Text} {line : Text} (h : line ∈ lines)
    (hne : line ≠ blank) : line ∈ Builder.dropBlankEnd lines := by
  have hsplit :=
    List.takeWhile_append_dropWhile (p := fun l => decide (l = blank)) (l := lines.reverse)
  rw [← List.mem_reverse, ← hsplit, List.mem_append] at h
  rw [Builder.dropBlankEnd, List.mem_reverse]
  refine h.resolve_left fun hmem => hne ?_
  simpa using List.mem_takeWhile_imp hmem

theorem dropBlankEnd_of_last {lines : List Text}
    (h : ∀ line, lines.getLast? = some line → line ≠ blank) :
    Builder.dropBlankEnd lines = lines := by
  rcases List.eq_nil_or_concat' lines with rfl | ⟨front, last, rfl⟩
  · rfl
  · have hlast : last ≠ blank := h last List.getLast?_concat
    rw [Builder.dropBlankEnd, List.reverse_append, List.reverse_singleton, List.singleton_append,
      List.dropWhile_cons_of_neg (by simpa using hlast), List.reverse_cons, List.reverse_reverse]

theorem tagLine_ne_blank (t : Tag) : t.line ≠ blank := by
  intro hline
  cases t <;> exact List.cons_ne_nil _ _ (List.cons.inj hline).2

/-- Tags at the end of a block keep everything above them. -/
theorem dropBlankEnd_append_tagLines (front : List Text) (tags : List Tag) :
    Builder.dropBlankEnd (front ++ tags.map Tag.line) =
      if tags = [] then Builder.dropBlankEnd front else front ++ tags.map Tag.line := by
  rcases List.eq_nil_or_concat' tags with rfl | ⟨before, t, rfl⟩
  · rw [if_pos rfl, List.map_nil, List.append_nil]
  · rw [if_neg (by simp)]
    refine dropBlankEnd_of_last fun line hline => ?_
    rw [List.map_append, List.map_singleton, ← List.append_assoc, List.getLast?_concat] at hline
    exact Option.some.inj hline ▸ tagLine_ne_blank t

/-- Are the lines, each after the indentation, among the texts?  Empty comment lines may be missing,
and so may a carriage return at the end of a line. -/
def Written (texts : List Text) (indent : Text) (lines : List Text) : Prop :=
  ∀ line ∈ lines, isEmptyComment (indent ++ line) = false →
    ∃ said ∈ texts, said = indent ++ line ∨ said = (indent ++ line).withoutReturn

section Written

variable {indent : Text} (hindent : ∀ c ∈ indent, isIndentSym c)
include hindent

theorem isEmptyComment_indented_tag (rest : Text) :
    isEmptyComment (indent ++ (("# @" : Text) ++ rest)) = false := by
  rw [isEmptyComment, content?, afterSign?, trimLeft_append, isBlank_indent hindent, if_pos rfl]
  rfl

theorem isEmptyComment_indented_tagLine (t : Tag) : isEmptyComment (indent ++ t.line) = false := by
  have hline : ∃ rest, t.line = ("# @" : Text) ++ rest := by
    cases t <;> exact ⟨_, rfl⟩
  obtain ⟨rest, hline⟩ := hline
  rw [hline]
  exact isEmptyComment_indented_tag hindent rest

theorem isEmptyComment_indented_blank : isEmptyComment (indent ++ blank) := by
  rw [isEmptyComment, content?, afterSign?, trimLeft_append, isBlank_indent hindent, if_pos rfl]
  rfl

/-- A tag that is written is found. -/
theorem Written.covers {texts lines : List Text} (h : Written texts indent lines) {t : Tag}
    (hline : t.line ∈ lines) (ht : t.Fits) : (Existing.ofLines texts).covers t := by
  obtain ⟨said, hmem, hsaid⟩ := h _ hline (isEmptyComment_indented_tagLine hindent t)
  exact covers_of_mem ht hindent hsaid hmem

/-- An attribute whose block is written is found. -/
theorem Written.mem_attributes {texts lines : List Text} (h : Written texts indent lines)
    {name : Text} (hname : IsName name) (access : Access)
    (hline : "# @!attribute [" ++ access.letters ++ "] " ++ name ∈ lines) :
    name ∈ (Existing.ofLines texts).attributes := by
  obtain ⟨said, hmem, hsaid⟩ := h _ hline (isEmptyComment_indented_tag hindent _)
  have hne : name ≠ [] := by
    obtain ⟨s, word, mark, rfl, -⟩ := hname
    exact List.cons_ne_nil _ _
  have hlast : (indent ++ ("# @!attribute [" ++ access.letters ++ "] " ++ name)).getLast? ≠
      some Sym.carriageReturn := by
    rw [← List.append_assoc, List.getLast?_append_of_ne_nil _ hne]
    exact hname.last_ne_return
  rw [withoutReturn_of_ne hlast, or_self] at hsaid
  exact List.mem_filterMap.2 ⟨said, hmem, hsaid ▸ nameIn?_attributeLine hindent access hname⟩

theorem mem_attributes_of_attributeLines {texts : List Text} {s : Settings} {access : Access}
    {readType writeType : Text} (hname : IsName d.name)
    (h : Written texts indent (attributeLines s d access readType writeType)) :
    d.name ∈ (Existing.ofLines texts).attributes :=
  h.mem_attributes hindent hname access List.mem_cons_self

theorem Written.of_dropBlankEnd {texts lines : List Text}
    (h : Written texts indent (Builder.dropBlankEnd lines)) : Written texts indent lines := by
  intro line hline hspeaks
  refine h line (mem_dropBlankEnd_of_ne hline ?_) hspeaks
  rintro rfl
  rw [isEmptyComment_indented_blank hindent] at hspeaks
  cases hspeaks

/-- **A whole block documents the definition.** -/
theorem documented_of_drafts {texts : List Text} (hreads : ReadsBack b d f)
    (hraw : Drafts b d f raw) (h : Written texts indent raw) : Documented b d (.ofLines texts) := by
  cases hraw with
  | ofAttribute hrole readType writeType =>
      exact .ofAttribute hrole
        (mem_attributes_of_attributeLines hindent (hreads.attributeName _ hrole) h)
  | ofMethod hrole hlines =>
      obtain ⟨type, tags, -, htags, rfl⟩ := methodLines_eq_ok hlines
      refine .ofMethod hrole (hasTags_of_covers htags (Or.inr ⟨type, rfl⟩) fun t ht => ?_)
      exact h.covers hindent (List.mem_append_right _ (List.mem_map_of_mem ht))
        (hreads.fits htags (Or.inr ⟨type, rfl⟩) t ht)

/-- **A comment with what it lacked documents the definition.** -/
theorem documented_of_supplements {old texts : List Text} (hreads : ReadsBack b d f)
    (hraw : Supplements b d f (.ofLines old) raw) (hold : ∀ line ∈ old, line ∈ texts)
    (h : Written texts indent raw) : Documented b d (.ofLines texts) := by
  cases hraw with
  | known hrole hknown => exact .ofAttribute hrole (attributes_mono hold hknown)
  | ofAttribute hrole hnew readType writeType =>
      have hlines : Written texts indent (attributeLines b.settings d _ readType writeType) :=
        fun line hline => h line (mem_joining hline)
      exact .ofAttribute hrole
        (mem_attributes_of_attributeLines hindent (hreads.attributeName _ hrole) hlines)
  | ofMethod hrole hmissing =>
      obtain ⟨returns, tags, htags, rfl, hreturns⟩ := missingTags_eq_ok hmissing
      have hreturns := hreturns.imp_right (Exists.imp fun _ h => h.1)
      have hreturn : (Existing.ofLines texts).hasReturn ∨
          ∃ type, returns = returnTags b.settings b.source d type :=
        hreturns.imp_left fun h => covers_mono (t := .returned []) hold h.1
      refine .ofMethod hrole (hasTags_of_covers htags hreturn fun t ht => ?_)
      -- A tag is in the old comment or among the lines that join it.
      cases hcovers : (Existing.ofLines old).covers t with
      | true => exact covers_mono hold hcovers
      | false =>
          refine h.covers hindent (mem_joining (List.mem_map_of_mem (List.mem_filter.2 ⟨ht, ?_⟩)))
            (hreads.fits htags (hreturns.imp_left And.right) t ht)
          simp [hcovers]

end Written

end Documented

/-! ## The whole block -/

/-- The block of a method whose signature can be read: heading, description and all tags.  Blank
lines at its end go only if there is no tag. -/
theorem run_block_of_method {b : Builder} {d : Definition} {copy : Option Visibility}
    (hrole : d.role = .method copy) {l : Lookups}
    (hread : (Lookups.find b.provider (keyOf d) l).1.Readable) :
    ∃ type tags,
      returnType b.settings b.source d (Lookups.find b.provider (keyOf d) l).1 = .ok type ∧
      tagsWith b.settings b.source d (Lookups.find b.provider (keyOf d) l).1
        (returnTags b.settings b.source d type) = .ok tags ∧
      ∀ indent, ((b.block d indent).run l).1 =
        (if tags = [] then
          Builder.dropBlankEnd (headingLines b.settings d type ++ descriptionLines b.settings d)
        else headingLines b.settings d type ++ descriptionLines b.settings d ++
          tags.map Tag.line).map (indent ++ ·) := by
  obtain ⟨lines, hlines⟩ := Builder.methodLines_of_readable (d := d) hread b.settings b.source
  obtain ⟨type, tags, htype, htags, rfl⟩ := methodLines_eq_ok hlines
  refine ⟨type, tags, htype, htags, fun indent => ?_⟩
  show (Builder.dropBlankEnd ((b.rawBlock d).run l).1).map (indent ++ ·) = _
  rw [Builder.run_rawBlock_of_method hrole, hlines, ← dropBlankEnd_append_tagLines]
  rfl

theorem dropBlankEnd_attributeLines (s : Settings) (d : Definition) (access : Access)
    (readType writeType : Text) :
    Builder.dropBlankEnd (attributeLines s d access readType writeType) =
      attributeLines s d access readType writeType := by
  refine dropBlankEnd_of_last fun line hline => ?_
  rintro rfl
  have hmem := List.mem_of_getLast? hline
  simp only [attributeLines, List.mem_append, List.mem_singleton, List.mem_ite_nil_right] at hmem
  rcases hmem with ((h | ⟨-, h⟩) | ⟨-, h⟩) | ⟨-, h⟩ <;>
    exact List.cons_ne_nil _ _ (List.cons.inj h).2.symm

/-- The block of an attribute whose signatures can be read. -/
theorem run_block_of_attribute {b : Builder} {d : Definition} {access : Access}
    (hrole : d.role = .attribute access) {l : Lookups}
    (hreader : access.reads → (Lookups.find b.provider (keyOf d) l).1.Readable)
    (hwriter : access.writes →
      (Lookups.find b.provider (writerKeyOf d) (b.afterReader d access l)).1.Readable) :
    ∃ readType writeType, ∀ indent, ((b.block d indent).run l).1 =
      (attributeLines b.settings d access readType writeType).map (indent ++ ·) := by
  obtain ⟨readType, writeType, l', hlines⟩ := b.attributeBlock_of_answers hreader hwriter
  refine ⟨readType, writeType, fun indent => ?_⟩
  show (Builder.dropBlankEnd ((b.rawBlock d).run l).1).map (indent ++ ·) = _
  rw [Builder.run_rawBlock_of_attribute hrole, hlines]
  exact congrArg (List.map (indent ++ ·)) (dropBlankEnd_attributeLines ..)

section Documented

variable {b : Builder} {d : Definition} {f : Finding} {e : Existing} {raw : List Text}

/-! ## Empty blocks -/

theorem covers_ofLines_nil (t : Tag) : (Existing.ofLines []).covers t = false := by
  cases t <;> rfl

theorem ne_blank_of_append (rest : Text) : ("# " : Text) ++ rest ≠ blank :=
  fun h => List.cons_ne_nil _ _ (List.cons.inj h).2

theorem headingLines_eq_nil {s : Settings} {type : Text}
    (h : ∀ line ∈ headingLines s d type, line = blank) (other : Text) :
    headingLines s d other = [] := by
  by_cases hemit : s.emit.header
  · rw [headingLines, if_pos hemit] at h
    have hfirst := h _ List.mem_cons_self
    simp only [List.append_assoc] at hfirst
    exact absurd hfirst (ne_blank_of_append ("+" ++ (d.id ++ ("+ -> " ++ type))))
  · rw [headingLines, if_neg hemit]

theorem descriptionLines_eq_nil {s : Settings} (h : ∀ line ∈ descriptionLines s d, line = blank) :
    descriptionLines s d = [] := by
  by_cases hemit : s.emit.description
  · rw [descriptionLines, if_pos hemit] at h
    exact absurd (h _ List.mem_cons_self) (ne_blank_of_append _)
  · rw [descriptionLines, if_neg hemit]

theorem tags_eq_nil {tags : List Tag} (h : ∀ line ∈ tags.map Tag.line, line = blank) :
    tags = [] := by
  refine List.eq_nil_iff_forall_not_mem.2 fun t ht => ?_
  exact tagLine_ne_blank t (h _ (List.mem_map_of_mem ht))

/-- **Whether a block is empty does not depend on the lookups.** -/
theorem dropBlankEnd_eq_nil_of_drafts {g : Finding} {other : List Text} (hraw : Drafts b d f raw)
    (hnil : Builder.dropBlankEnd raw = []) (hother : Drafts b d g other) :
    Builder.dropBlankEnd other = [] := by
  have hblank : ∀ line ∈ raw, line = blank := by
    intro line hline
    by_contra hne
    exact absurd (mem_dropBlankEnd_of_ne hline hne) (hnil ▸ List.not_mem_nil)
  cases hraw with
  | ofAttribute hrole readType writeType =>
      exact absurd (List.cons.inj (hblank _ List.mem_cons_self)).2 (List.cons_ne_nil _ _)
  | ofMethod hrole hlines =>
      obtain ⟨type, tags, -, htags, rfl⟩ := methodLines_eq_ok hlines
      simp only [List.mem_append, or_imp, forall_and] at hblank
      obtain ⟨⟨hheading, hdescription⟩, htagLines⟩ := hblank
      obtain rfl := tags_eq_nil htagLines
      -- Without tags, the definition is documented by no lines at all.
      have hnone : HasTags b.settings b.source d (.ofLines []) :=
        hasTags_of_covers htags (Or.inr ⟨type, rfl⟩) fun t ht => absurd ht List.not_mem_nil
      cases hother with
      | ofAttribute hattribute readType writeType =>
          rw [hattribute] at hrole
          cases hrole
      | ofMethod _ hlines' =>
          obtain ⟨type', tags', -, htags', rfl⟩ := methodLines_eq_ok hlines'
          -- Then the tags for other lookups are covered by no lines as well.
          have hnil' : tags' = [] := by
            refine List.eq_nil_iff_forall_not_mem.2 fun t ht => ?_
            have hcovers := hnone.covers htags' (Or.inr ⟨type', rfl⟩) t ht
            rw [covers_ofLines_nil] at hcovers
            cases hcovers
          rw [headingLines_eq_nil hheading, descriptionLines_eq_nil hdescription, hnil']
          rfl

end Documented

end RubyDoc.Block
