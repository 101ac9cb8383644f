import Mathlib.Data.List.Chain
import RubyDoc.Proofs.Block.Documented
import RubyDoc.Proofs.Edit.PlanRun

/-!
# What is written is what is read

Searches for tags try every place of a line, so they could find a tag in the middle of a heading, a
type or a description.  If no text that a block is filled with looks like a tag, every line has at
most one place where a tag starts (`OneTag`), and what is read from a block are exactly its tags
(`block_decoded`).  Nothing is said here about texts that look like tags; what is read then need not
be what was written.
-/

namespace RubyDoc.Block

open Text Comment Outline Signature Analysis Syntax Lookups Edit

/-! ## Texts without tags -/

/-- Can the symbol be the first one of a tag, after the at sign? -/
def beginsTag (s : Sym) : Bool :=
  s.isLetter || s = .char '!'

/-- Is there no at sign before a letter or an exclamation mark in the text? -/
def TagFree (t : Text) : Prop :=
  t.IsChain fun s c => s = .char '@' → beginsTag c = false

instance : DecidablePred TagFree :=
  fun t => inferInstanceAs (Decidable (t.IsChain fun s c => s = .char '@' → beginsTag c = false))

theorem TagFree.append {t u : Text} (ht : TagFree t) (hu : TagFree u)
    (h : t.getLast? ≠ some (.char '@') ∨ u.head?.any beginsTag = false) : TagFree (t ++ u) := by
  refine List.IsChain.append ht hu fun s hs c hc hat => ?_
  subst hat
  rw [Option.mem_def.1 hc] at h
  exact h.resolve_left fun hne => hne hs

/-- Texts around a text may be ones that no tag can run into. -/
theorem TagFree.between {before t after : Text} (hbefore : TagFree before) (ht : TagFree t)
    (hafter : TagFree after) (hlast : before.getLast? ≠ some (.char '@'))
    (hhead : after.head?.any beginsTag = false) : TagFree (before ++ t ++ after) :=
  (hbefore.append ht (Or.inl hlast)).append hafter (Or.inr hhead)

theorem tagFree_of_notMem {t : Text} (h : Sym.char '@' ∉ t) : TagFree t := by
  induction t with
  | nil => exact .nil
  | cons s t ih =>
      rw [List.mem_cons, not_or] at h
      refine TagFree.append (t := [s]) (.singleton s) (ih h.2) (Or.inl fun hs => h.1 ?_)
      exact (Option.some.inj hs).symm

theorem IsName.tagFree {name : Text} (h : IsName name) : TagFree name := by
  obtain ⟨s, word, mark, rfl, hs, hword, hmark⟩ := h
  refine tagFree_of_notMem fun hmem => ?_
  simp only [List.cons_append, List.mem_cons, List.mem_append] at hmem
  rcases hmem with rfl | hmem | hmem
  · exact absurd hs (by decide)
  · exact absurd (hword _ hmem) (by decide)
  · rcases hmark with rfl | rfl | rfl <;> exact absurd hmem (by decide)

theorem tagFree_join {sep : Text} (hsep : TagFree sep) (hhead : sep.head?.any beginsTag = false)
    (hlast : sep.getLast? ≠ some (.char '@')) (hne : sep ≠ []) {texts : List Text}
    (h : ∀ t ∈ texts, TagFree t) : TagFree (join sep texts) := by
  induction texts with
  | nil => exact .nil
  | cons t texts ih =>
      obtain ⟨ht, hrest⟩ := List.forall_mem_cons.1 h
      cases texts with
      | nil => exact ht
      | cons u texts =>
          rw [join]
          refine (ht.append hsep (Or.inr hhead)).append (ih hrest) (Or.inl ?_)
          rwa [List.getLast?_append_of_ne_nil _ hne]

theorem tagFree_id {d : Definition} (hcontainer : TagFree d.container) (hname : TagFree d.name) :
    TagFree d.id := by
  rw [Definition.id, memberId]
  cases d.scope with
  | onInstance =>
      refine (hcontainer.append (by decide) (Or.inr rfl)).append hname (Or.inl ?_)
      rw [List.getLast?_append_of_ne_nil _ (by decide)]
      decide
  | onClass =>
      refine (hcontainer.append (by decide) (Or.inr rfl)).append hname (Or.inl ?_)
      rw [List.getLast?_append_of_ne_nil _ (by decide)]
      decide

/-! ## Places of tags -/

/-- Does a tag start here? -/
def OpensTag (t : Text) : Prop :=
  ∃ c rest, t = .char '@' :: c :: rest ∧ beginsTag c

/-- Does the line end with `tail`, and can no tag start anywhere but there? -/
structure OneTag (line tail : Text) : Prop where
  suffix : tail <:+ line
  only : ∀ v, v <:+ line → OpensTag v → v = tail

theorem TagFree.not_opensTag {t v : Text} (ht : TagFree t) (hv : v <:+ t) : ¬ OpensTag v := by
  rintro ⟨c, rest, rfl, hc⟩
  have hnot := (List.isChain_cons_cons.1 (List.IsChain.suffix ht hv)).1 rfl
  rw [hc] at hnot
  cases hnot

theorem TagFree.oneTag {line : Text} (h : TagFree line) : OneTag line [] where
  suffix := List.nil_suffix
  only := fun _ hv hopens => absurd hopens (h.not_opensTag hv)

/-- The only tag of a line is the one whose at sign stands between texts without tags. -/
theorem oneTag_append {before rest : Text} (hbefore : TagFree before) (hrest : TagFree rest) :
    OneTag (before ++ .char '@' :: rest) (.char '@' :: rest) where
  suffix := List.suffix_append _ _
  only := by
    rintro v ⟨u, huv⟩ hopens
    rcases List.append_eq_append_iff.1 huv with ⟨w, hw, rfl⟩ | ⟨w, hw, hv⟩
    · cases w with
      | nil => rfl
      | cons s w =>
          -- The tag would have to start in the text before.
          obtain ⟨c, more, heq, hc⟩ := hopens
          cases w with
          | nil =>
              obtain rfl : Sym.char '@' = c := (List.cons.inj (List.cons.inj heq).2).1
              exact absurd hc (by decide)
          | cons c' w =>
              refine absurd ⟨c', w, ?_, ?_⟩ (hbefore.not_opensTag (v := s :: c' :: w) ⟨u, hw.symm⟩)
              · rw [(List.cons.inj heq).1]
              · rw [(List.cons.inj (List.cons.inj heq).2).1]
                exact hc
    · cases w with
      | nil => exact hv.symm
      | cons s w =>
          refine absurd hopens (hrest.not_opensTag ⟨w, ?_⟩)
          exact ((List.cons.inj hv).2).symm

/-- What is found in a line is what is found at its only tag. -/
theorem OneTag.findSome?_eq {line tail : Text} (h : OneTag line tail) {α : Type}
    {f : Text → Option α} (hf : ∀ v, ¬ OpensTag v → f v = none) :
    findSome? f line = f tail := by
  obtain ⟨before, rfl⟩ := h.suffix
  have hskip : findSome? f (before ++ tail) = findSome? f tail := by
    refine findSome?_append_of_none fun u v huv hne => hf _ fun hopens => hne ?_
    have htail := h.only (v ++ tail) ⟨u, by rw [huv, List.append_assoc]⟩ hopens
    exact List.append_left_eq_self.1 htail
  rw [hskip]
  cases tail with
  | nil => rfl
  | cons s more =>
      have hrest : findSome? f more = none := by
        rw [← Option.not_isSome_iff_eq_none, findSome?_isSome_iff]
        rintro ⟨u, v, rfl, hsome⟩
        have hnot : ¬ OpensTag v := fun hopens => by
          have heq := h.only v ⟨before ++ s :: u, by simp⟩ hopens
          have hlength := congrArg List.length heq
          simp only [List.length_cons, List.length_append] at hlength
          omega
        rw [hf v hnot] at hsome
        cases hsome
      rw [findSome?, hrest]
      cases f (s :: more) <;> rfl

section Readers

variable {v : Text} (h : ¬ OpensTag v) {c : Sym} (hc : beginsTag c)
include h hc

theorem after?_eq_none_of_not_opensTag (tag : Text) : after? (.char '@' :: c :: tag) v = none := by
  cases hafter : after? (.char '@' :: c :: tag) v with
  | none => rfl
  | some rest => exact absurd ⟨c, tag ++ rest, after?_eq_some_iff.1 hafter, hc⟩ h

theorem nameAfter?_eq_none_of_not_opensTag (tag : Text) :
    nameAfter? (.char '@' :: c :: tag) v = none := by
  simp only [nameAfter?, after?_eq_none_of_not_opensTag h hc, Option.bind_none,
    Option.bind_eq_bind]

end Readers

theorem raisedAfter?_eq_none_of_not_opensTag {v : Text} (h : ¬ OpensTag v) :
    raisedAfter? v = none := by
  have hafter : after? "@raise" v = none := after?_eq_none_of_not_opensTag h (by decide) _
  simp only [raisedAfter?, hafter, Option.bind_none, Option.bind_eq_bind]

theorem startsWithWord_eq_false_of_not_opensTag {v : Text} (h : ¬ OpensTag v) {tags : List Text}
    (htags : ∀ tag ∈ tags, OpensTag tag) : startsWithWord tags v = false := by
  rw [startsWithWord, List.any_eq_false]
  intro tag htag
  obtain ⟨c, rest, rfl, hc⟩ := htags tag htag
  rw [after?_eq_none_of_not_opensTag h hc]
  exact Bool.false_ne_true

/-! ## What is read from a line -/

namespace Tag

/-- The parameter that a tag names. -/
def param? : Tag → Option Text
  | param name _ => some name
  | _ => none

/-- The exception that a tag names. -/
def error? : Tag → Option Text
  | raised error => some error
  | _ => none

/-- Is the tag one of a result? -/
def isResult : Tag → Bool
  | returned _ | returnedIf _ _ => true
  | _ => false

/-- Is the tag one of a visibility? -/
def isVisibility : Tag → Bool
  | visibility _ => true
  | _ => false

/-- Is the tag the note on module functions? -/
def isModuleNote : Tag → Bool
  | moduleFunction _ _ => true
  | _ => false

end Tag

/-- Is exactly this read: these tags, and these names of attributes? -/
structure Existing.Says (e : Existing) (tags : List Tag) (names : List Text) : Prop where
  params : e.params = tags.filterMap Tag.param?
  raised : e.raised = tags.filterMap Tag.error?
  attributes : e.attributes = names
  hasReturn : e.hasReturn = tags.any Tag.isResult
  hasVisibility : e.hasVisibility = tags.any Tag.isVisibility
  hasModuleNote : e.hasModuleNote = tags.any Tag.isModuleNote

/-- Is exactly this read where a text begins, whatever comes further on? -/
structure ReadsFirst (t : Text) (tags : List Tag) (names : List Text) : Prop where
  params : (nameAfter? "@param" t).toList = tags.filterMap Tag.param?
  raised : ((splitOn (.char ',') ((raisedAfter? t).getD [])).map trim).filter
    (fun name => !name.isEmpty) = tags.filterMap Tag.error?
  attributes : (nameAfter? "@!attribute" t).toList = names
  hasReturn : startsWithWord ["@return"] t = tags.any Tag.isResult
  hasVisibility : startsWithWord ["@private", "@protected"] t = tags.any Tag.isVisibility
  hasModuleNote : (after? moduleFunctionNote t).isSome = tags.any Tag.isModuleNote

section Says

variable {tags us : List Tag} {names ns : List Text}

theorem says_nil : (Existing.ofLines []).Says [] [] :=
  ⟨rfl, rfl, rfl, rfl, rfl, rfl⟩

/-- What is read from lines is what is read from each of them. -/
theorem Existing.Says.append {ls ms : List Text} (h : (Existing.ofLines ls).Says tags names)
    (h' : (Existing.ofLines ms).Says us ns) :
    (Existing.ofLines (ls ++ ms)).Says (tags ++ us) (names ++ ns) where
  params := by
    rw [List.filterMap_append, ← h.params, ← h'.params]
    exact List.filterMap_append
  raised := by
    rw [List.filterMap_append, ← h.raised, ← h'.raised]
    exact List.flatMap_append
  attributes := by
    rw [← h.attributes, ← h'.attributes]
    exact List.filterMap_append
  hasReturn := by
    rw [List.any_append, ← h.hasReturn, ← h'.hasReturn]
    exact List.any_append
  hasVisibility := by
    rw [List.any_append, ← h.hasVisibility, ← h'.hasVisibility]
    exact List.any_append
  hasModuleNote := by
    rw [List.any_append, ← h.hasModuleNote, ← h'.hasModuleNote]
    exact List.any_append

/-- **What is read from a line is what is read at its only tag.** -/
theorem OneTag.says_line {line tail : Text} (h : OneTag line tail)
    (hreads : ReadsFirst tail tags names) : (Existing.ofLines [line]).Says tags names := by
  have hname : ∀ {c : Sym} (tag : Text), beginsTag c → [line].filterMap
      (nameIn? (.char '@' :: c :: tag)) = (nameAfter? (.char '@' :: c :: tag) tail).toList := by
    intro c tag hc
    have hfind : nameIn? (.char '@' :: c :: tag) line = nameAfter? (.char '@' :: c :: tag) tail :=
      h.findSome?_eq fun _ hv => nameAfter?_eq_none_of_not_opensTag hv hc tag
    rw [← hfind]
    cases hline : nameIn? (.char '@' :: c :: tag) line with
    | none => simp [hline]
    | some name => simp [hline]
  have hholds : ∀ words : List Text, (∀ tag ∈ words, OpensTag tag) →
      [line].any (holdsTag words) = startsWithWord words tail := by
    intro words hwords
    rw [List.any_cons, List.any_nil, Bool.or_false, holdsTag, h.findSome?_eq fun v hv => by
      rw [startsWithWord_eq_false_of_not_opensTag hv hwords]
      rfl]
    cases startsWithWord words tail <;> rfl
  refine ⟨?_, ?_, ?_, ?_, ?_, ?_⟩
  · exact (hname "aram" (by decide)).trans hreads.params
  · rw [← hreads.raised, ← h.findSome?_eq fun v => raisedAfter?_eq_none_of_not_opensTag]
    exact List.flatMap_singleton _ _
  · exact (hname "attribute" (by decide)).trans hreads.attributes
  · refine (hholds ["@return"] ?_).trans hreads.hasReturn
    simp only [List.forall_mem_singleton]
    exact ⟨_, _, rfl, by decide⟩
  · refine (hholds ["@private", "@protected"] ?_).trans hreads.hasVisibility
    simp only [List.forall_mem_cons]
    exact ⟨⟨_, _, rfl, by decide⟩, ⟨_, _, rfl, by decide⟩, fun tag htag => by cases htag⟩
  · have hnote : findSome? (after? moduleFunctionNote) line = after? moduleFunctionNote tail :=
      h.findSome?_eq fun v hv => after?_eq_none_of_not_opensTag hv (by decide) _
    rw [← hreads.hasModuleNote, ← hnote]
    exact Bool.or_false _

/-- Nothing is read from a line without tags. -/
theorem TagFree.says_line {line : Text} (h : TagFree line) : (Existing.ofLines [line]).Says [] [] :=
  h.oneTag.says_line ⟨rfl, rfl, rfl, rfl, rfl, rfl⟩

end Says

/-! ## Single tags -/

/-- Can the tag be read from its line, and does no text in it look like another tag? -/
def Tag.Legible : Tag → Prop
  | visibility _ => True
  | moduleFunction name _ => TagFree name
  | param name type => IsName name ∧ Sym.char ']' ∉ type ∧ TagFree type
  | raised error => IsListable error ∧ TagFree error
  | returned type => TagFree type
  | returnedIf type errors => TagFree type ∧ ∀ error ∈ errors, TagFree error

theorem bracketed?_eq_none {s : Sym} (hs : s ≠ .char '[') (t : Text) :
    bracketed? (s :: t) = none := by
  rw [bracketed?]
  split
  · exact if_neg hs
  · rfl

theorem readsFirst_visibility {v : Visibility} (hv : v ≠ .pub) :
    ReadsFirst (.char '@' :: v.name) [.visibility v] [] := by
  cases v with
  | pub => exact absurd rfl hv
  | prot => exact ⟨rfl, rfl, rfl, rfl, rfl, rfl⟩
  | priv => exact ⟨rfl, rfl, rfl, rfl, rfl, rfl⟩

theorem tagFree_visibilityName (v : Visibility) : TagFree v.name := by
  cases v <;> decide

theorem readsFirst_returned (type rest : Text) :
    ReadsFirst (.char '@' :: ("return [" ++ rest)) [.returned type] [] :=
  ⟨rfl, rfl, rfl, rfl, rfl, rfl⟩

/-- The name of a writer's parameter has no type before it. -/
theorem readsFirst_value (type rest : Text) :
    ReadsFirst (.char '@' :: ("param value [" ++ rest)) [.param "value" type] [] := by
  refine ⟨?_, rfl, rfl, rfl, rfl, rfl⟩
  have hnone : bracketed? ("value [" ++ rest : Text) = none := bracketed?_eq_none (by decide) _
  have hblank : afterBlank? (" value [" ++ rest : Text) = some ("value [" ++ rest) := rfl
  have hafter : after? "@param" (.char '@' :: ("param value [" ++ rest)) =
      some (" value [" ++ rest : Text) := rfl
  simp only [nameAfter?, hafter, hblank, Option.bind_some, Option.bind_eq_bind, hnone,
    Option.bind_none]
  rfl

theorem tagFree_returned {type : Text} (htype : TagFree type) :
    TagFree ("return [" ++ type ++ "]") :=
  .between (by decide) htype (by decide) (by decide) rfl

/-- The tag of a legible line is the only one, and it is read there. -/
theorem exists_readsFirst {t : Tag} (ht : t.Fits) (hlegible : t.Legible) :
    ∃ rest, t.line = ("# " : Text) ++ .char '@' :: rest ∧ TagFree rest ∧
      ReadsFirst (.char '@' :: rest) [t] [] := by
  cases t with
  | visibility v => exact ⟨v.name, rfl, tagFree_visibilityName v, readsFirst_visibility ht⟩
  | moduleFunction name copy =>
      refine ⟨"note module_function: when included, also defines #" ++ name ++
        (" (instance visibility: " ++ copy.name ++ ")"), ?_, ?_, ⟨rfl, rfl, rfl, rfl, rfl, rfl⟩⟩
      · simp only [Tag.line, List.append_assoc]
        rfl
      · refine .between (by decide) hlegible ?_ (by decide) rfl
        cases copy <;> decide
  | param name type =>
      obtain ⟨hname, hbracket, htype⟩ := hlegible
      refine ⟨"param [" ++ type ++ ("] " ++ name ++ " Param documentation."), ?_, ?_,
        ⟨?_, rfl, rfl, rfl, rfl, rfl⟩⟩
      · simp only [Tag.line, List.append_assoc]
        rfl
      · exact .between (by decide) htype
          (.between (by decide) hname.tagFree (by decide) (by decide) rfl) (by decide) rfl
      · have hends : EndsName " Param documentation." := by
          intro c hc
          obtain rfl : Sym.char ' ' = c := Option.some.inj hc
          decide
        have hfound := nameAfter?_bracketed "@param" hbracket hname hends
        simp only [List.append_assoc] at hfound ⊢
        exact congrArg Option.toList hfound
  | raised error =>
      obtain ⟨hlistable, herror⟩ := hlegible
      have hrest : TagFree ("raise [" ++ error ++ "]") :=
        .between (by decide) herror (by decide) (by decide) rfl
      refine ⟨"raise [" ++ error ++ "]", rfl, hrest, ⟨rfl, ?_, rfl, rfl, rfl, rfl⟩⟩
      have hsign : TagFree ("# " : Text) := by decide
      have hindent : ∀ c ∈ ([] : Text), isIndentSym c := fun c hc => absurd hc List.not_mem_nil
      rw [← (oneTag_append hsign hrest).findSome?_eq fun _ => raisedAfter?_eq_none_of_not_opensTag]
      exact raisedIn_raisedLine hindent ht.1 hlistable
  | returned type =>
      exact ⟨"return [" ++ type ++ "]", rfl, tagFree_returned hlegible, readsFirst_returned type _⟩
  | returnedIf type errors =>
      obtain ⟨htype, herrors⟩ := hlegible
      refine ⟨"return [" ++ type ++ ("] if " ++ join ", " errors), ?_, ?_,
        ⟨rfl, rfl, rfl, rfl, rfl, rfl⟩⟩
      · simp only [Tag.line, List.append_assoc]
        rfl
      · have herrors : TagFree (join ", " errors) :=
          tagFree_join (by decide) rfl (by decide) (by decide) herrors
        exact .between (by decide) htype (.append (by decide) herrors (Or.inl (by decide)))
          (by decide) rfl

/-! ## Whole blocks -/

/-- Does no text look like a tag that fills the block of a method, and can its tags be read? -/
structure Legible (s : Settings) (d : Definition) (type : Text) (tags : List Tag) : Prop where
  heading : s.emit.header → TagFree d.container ∧ TagFree d.name ∧ TagFree type
  description : s.emit.description → TagFree (s.messageFor d.scope d.visibility)
  tags : ∀ t ∈ tags, t.Legible

theorem fits_of_legible {s : Settings} {src : Source} {d : Definition} {f : Finding} {type : Text}
    {tags : List Tag} (htags : tagsWith s src d f (returnTags s src d type) = .ok tags)
    (h : ∀ t ∈ tags, t.Legible) : ∀ t ∈ tags, t.Fits := by
  intro t ht
  have hlegible := h t ht
  cases givesTag_of_tagsWith htags t ht with
  | visibility hv => exact hv
  | moduleFunction copy => trivial
  | param hp htag =>
      obtain ⟨type, rfl⟩ := paramTag_eq_ok htag
      exact ⟨hlegible.1, hlegible.2.1⟩
  | raised herror => exact ⟨ne_nil_of_mem_raisedTypes herror, hlegible.1⟩
  | result ht => exact fits_of_mem_returnTags _ ht

/-- The tags that the block of an attribute has below its name. -/
def attributeTags (s : Settings) (d : Definition) (access : Access) (readType writeType : Text) :
    List Tag :=
  visibilityTags s d ++ (if access.reads then [.returned readType] else []) ++
    (if access.writes then [.param "value" writeType] else [])

section Indented

variable {indent : Text} (hindent : TagFree indent)
include hindent

theorem says_of_sign {sign rest : Text} (hsign : TagFree sign)
    (hhead : sign.head?.any beginsTag = false) (hrest : TagFree rest) {tags : List Tag}
    {names : List Text} (h : ReadsFirst (.char '@' :: rest) tags names) :
    (Existing.ofLines [indent ++ (sign ++ .char '@' :: rest)]).Says tags names := by
  rw [← List.append_assoc]
  exact (oneTag_append (hindent.append hsign (Or.inr hhead)) hrest).says_line h

/-- Nothing is read from lines without tags. -/
theorem says_nil_of_tagFree {lines : List Text}
    (h : ∀ line ∈ lines, TagFree line ∧ line.head?.any beginsTag = false) :
    (Existing.ofLines (lines.map (indent ++ ·))).Says [] [] := by
  induction lines with
  | nil => exact says_nil
  | cons line lines ih =>
      obtain ⟨⟨hline, hhead⟩, hrest⟩ := List.forall_mem_cons.1 h
      exact (hindent.append hline (Or.inr hhead)).says_line.append (ih hrest)

/-- The tags are read from their lines, in order. -/
theorem says_tagLines {tags : List Tag} (h : ∀ t ∈ tags, t.Fits ∧ t.Legible) :
    (Existing.ofLines ((tags.map Tag.line).map (indent ++ ·))).Says tags [] := by
  induction tags with
  | nil => exact says_nil
  | cons t tags ih =>
      obtain ⟨⟨hfits, hlegible⟩, hrest⟩ := List.forall_mem_cons.1 h
      obtain ⟨rest, hline, hfree, hreads⟩ := exists_readsFirst hfits hlegible
      have hsign : TagFree ("# " : Text) := by decide
      have hfirst := says_of_sign hindent hsign rfl hfree hreads
      rw [← hline] at hfirst
      exact hfirst.append (ih hrest)

section Attribute

variable {s : Settings} {d : Definition} {access : Access} {readType writeType : Text}

/-- The first line of the block of an attribute names it, and has no tag. -/
theorem says_attributeLine (access : Access) (hname : IsName d.name) :
    (Existing.ofLines
      [indent ++ ("# @!attribute [" ++ access.letters ++ "] " ++ d.name)]).Says [] [d.name] := by
  have hsign : TagFree ("# " : Text) := by decide
  have hrest : TagFree ("!attribute [" ++ access.letters ++ ("] " ++ d.name)) :=
    .between (by decide) (by cases access <;> decide)
      (.append (by decide) hname.tagFree (Or.inl (by decide))) (by decide) rfl
  have hfound : nameAfter? "@!attribute"
      (.char '@' :: ("!attribute [" ++ access.letters ++ ("] " ++ d.name))) = some d.name := by
    have hends : EndsName [] := fun c hc => by cases hc
    have hletters : Sym.char ']' ∉ access.letters := by
      cases access <;> decide
    have hfound := nameAfter?_bracketed "@!attribute" hletters hname hends
    simp only [List.append_assoc, List.append_nil] at hfound ⊢
    exact hfound
  have hreads : ReadsFirst
      (.char '@' :: ("!attribute [" ++ access.letters ++ ("] " ++ d.name))) [] [d.name] :=
    ⟨rfl, rfl, congrArg Option.toList hfound, rfl, rfl, rfl⟩
  rw [List.append_assoc]
  exact says_of_sign hindent hsign rfl hrest hreads

/-- The attribute is read from the first line of its block, the tags from the lines below. -/
theorem says_attributeLines (hname : IsName d.name) (hread : access.reads → TagFree readType)
    (hwrite : access.writes → TagFree writeType) :
    (Existing.ofLines ((attributeLines s d access readType writeType).map (indent ++ ·))).Says
      (attributeTags s d access readType writeType) [d.name] := by
  have hinner : TagFree ("#   " : Text) := by decide
  have hvisibility : (Existing.ofLines ((if s.emit.visibilityTags && d.visibility ≠ .pub
      then [("#   @" : Text) ++ d.visibility.name] else []).map (indent ++ ·))).Says
        (visibilityTags s d) [] := by
    rw [visibilityTags]
    split
    · rename_i hemit
      simp only [Bool.and_eq_true, decide_eq_true_eq] at hemit
      exact says_of_sign hindent hinner rfl (tagFree_visibilityName _)
        (readsFirst_visibility hemit.2)
    · exact says_nil
  have hreturned : (Existing.ofLines ((if access.reads
      then [("#   @return [" : Text) ++ readType ++ "]"] else []).map (indent ++ ·))).Says
        (if access.reads then [.returned readType] else []) [] := by
    split
    · rename_i hreads
      exact says_of_sign hindent hinner rfl (tagFree_returned (hread hreads))
        (readsFirst_returned readType _)
    · exact says_nil
  have hwritten : (Existing.ofLines ((if access.writes
      then [("#   @param value [" : Text) ++ writeType ++ "]"] else []).map (indent ++ ·))).Says
        (if access.writes then [.param "value" writeType] else []) [] := by
    split
    · rename_i hwrites
      exact says_of_sign hindent hinner rfl
        (.between (by decide) (hwrite hwrites) (by decide) (by decide) rfl)
        (readsFirst_value writeType _)
    · exact says_nil
  have hfirst := says_attributeLine hindent access hname
  rw [attributeLines, List.map_append, List.map_append, List.map_append]
  exact ((hfirst.append hvisibility).append hreturned).append hwritten

end Attribute

/-- The tags of a method are read from its block, and nothing else. -/
theorem says_methodLines {s : Settings} {d : Definition} {type : Text} {tags : List Tag}
    (hlegible : Legible s d type tags) (hfits : ∀ t ∈ tags, t.Fits) :
    (Existing.ofLines ((if tags = [] then
        Builder.dropBlankEnd (headingLines s d type ++ descriptionLines s d)
      else headingLines s d type ++ descriptionLines s d ++ tags.map Tag.line).map
        (indent ++ ·))).Says tags [] := by
  have hfront : ∀ line ∈ headingLines s d type ++ descriptionLines s d,
      TagFree line ∧ line.head?.any beginsTag = false := by
    intro line hline
    simp only [headingLines, descriptionLines, List.mem_append, List.mem_ite_nil_right,
      List.mem_cons, List.not_mem_nil, or_false] at hline
    rcases hline with ⟨hemit, rfl | rfl⟩ | ⟨hemit, rfl | rfl⟩
    · obtain ⟨hcontainer, hname, htype⟩ := hlegible.heading hemit
      have hfree : TagFree ("# +" ++ d.id ++ ("+ -> " ++ type)) :=
        .between (by decide) (tagFree_id hcontainer hname)
          (.append (by decide) htype (Or.inl (by decide))) (by decide) rfl
      rw [← List.append_assoc] at hfree
      exact ⟨hfree, rfl⟩
    · exact ⟨by decide, rfl⟩
    · exact ⟨.append (by decide) (hlegible.description hemit) (Or.inl (by decide)), rfl⟩
    · exact ⟨by decide, rfl⟩
  split
  · rename_i hnil
    rw [hnil]
    exact says_nil_of_tagFree hindent fun line hline => hfront line (mem_of_mem_dropBlankEnd hline)
  · rw [List.map_append]
    exact (says_nil_of_tagFree hindent hfront).append
      (says_tagLines hindent fun t ht => ⟨hfits t ht, hlegible.tags t ht⟩)

/-- **What is written is what is read.**  If no text in the block of a method looks like a tag and
its tags can be read at all, exactly the tags are read from it: the parameters, the exceptions, and
whether there is a result, a visibility or the note on module functions.  From the block of an
attribute its name is read, and a result exactly if the attribute has a reader. -/
theorem block_decoded {b : Builder} {d : Definition} {l : Lookups} :
    (∀ copy, d.role = .method copy → (Lookups.find b.provider (keyOf d) l).1.Readable →
      ∃ type tags,
        returnType b.settings b.source d (Lookups.find b.provider (keyOf d) l).1 = .ok type ∧
        tagsWith b.settings b.source d (Lookups.find b.provider (keyOf d) l).1
          (returnTags b.settings b.source d type) = .ok tags ∧
        ((b.block d indent).run l).1 =
          (if tags = [] then
            Builder.dropBlankEnd (headingLines b.settings d type ++ descriptionLines b.settings d)
          else headingLines b.settings d type ++ descriptionLines b.settings d ++
            tags.map Tag.line).map (indent ++ ·) ∧
        (Legible b.settings d type tags →
          (Existing.ofLines ((b.block d indent).run l).1).Says tags [])) ∧
    ∀ access, d.role = .attribute access →
      (access.reads → (Lookups.find b.provider (keyOf d) l).1.Readable) →
      (access.writes →
        (Lookups.find b.provider (writerKeyOf d) (b.afterReader d access l)).1.Readable) →
      ∃ readType writeType,
        ((b.block d indent).run l).1 =
          (attributeLines b.settings d access readType writeType).map (indent ++ ·) ∧
        (IsName d.name → (access.reads → TagFree readType) → (access.writes → TagFree writeType) →
          (Existing.ofLines ((b.block d indent).run l).1).attributes = [d.name] ∧
          (Existing.ofLines ((b.block d indent).run l).1).hasReturn = access.reads) := by
  refine ⟨fun copy hrole hread => ?_, fun access hrole hreader hwriter => ?_⟩
  · obtain ⟨type, tags, htype, htags, hblock⟩ := run_block_of_method hrole hread
    refine ⟨type, tags, htype, htags, hblock indent, fun hlegible => ?_⟩
    rw [hblock indent]
    exact says_methodLines hindent hlegible (fits_of_legible htags hlegible.tags)
  · obtain ⟨readType, writeType, hblock⟩ := run_block_of_attribute hrole hreader hwriter
    refine ⟨readType, writeType, hblock indent, fun hname hreads hwrites => ?_⟩
    have hsaid := says_attributeLines (s := b.settings) hindent hname hreads hwrites
    rw [hblock indent]
    refine ⟨hsaid.attributes, hsaid.hasReturn.trans ?_⟩
    rw [attributeTags, visibilityTags]
    cases access <;> cases hemit : (b.settings.emit.visibilityTags && d.visibility ≠ .pub) <;> rfl

end Indented

/-- The attribute `go`, to be read and written. -/
def goAttribute : Definition :=
  { bareMethod "go" 0 with role := .attribute .readWrite }

theorem legible_guardedTags :
    Legible guardedGo.settings guardedMethod "Object" guardedTags where
  heading := fun _ => by decide
  description := fun _ => by decide
  tags := by
    simp only [guardedTags, List.forall_mem_cons]
    refine ⟨trivial, ?_, ⟨?_, by decide, ?_⟩, ⟨?_, ?_⟩, ?_, fun t ht => by cases ht⟩
    · show TagFree "go"
      decide
    · exact ⟨.char 's', "ize", [], rfl, by decide, by decide, Or.inl rfl⟩
    · decide
    · show ∀ c ∈ _, _
      decide
    · decide
    · show TagFree "Object"
      decide

/-- From the block of the guarded method its tags are read, from that of an attribute its name. -/
theorem block_decoded_guarded :
    TagFree "  " ∧
      (Existing.ofLines ((guardedGo.block guardedMethod "  ").run {}).1).Says guardedTags [] ∧
      (Existing.ofLines ((plainGo.block goAttribute "  ").run {}).1).attributes = [("go" : Text)] ∧
      (Existing.ofLines ((plainGo.block goAttribute "  ").run {}).1).hasReturn := by
  have hindent : TagFree "  " := by decide
  have hname : IsName goAttribute.name :=
    ⟨.char 'g', "o", [], rfl, by decide, by decide, Or.inl rfl⟩
  obtain ⟨type, tags, htype, htags, -, hsaid⟩ :=
    (block_decoded (b := guardedGo) (d := guardedMethod) (l := {}) hindent).1 (some .priv) rfl
      readable_nothing
  obtain rfl : type = "Object" := (Except.ok.inj htype).symm
  obtain rfl : tags = guardedTags := (Except.ok.inj htags).symm
  obtain ⟨readType, writeType, hblock, hattribute⟩ :=
    (block_decoded (b := plainGo) (d := goAttribute) (l := {}) hindent).2 .readWrite rfl
      (fun _ => readable_nothing) (fun _ => readable_nothing)
  have hknown : ((plainGo.block goAttribute "  ").run {}).1 =
      (attributeLines plainGo.settings goAttribute .readWrite "Object" "Object").map
        (Text.ofString "  " ++ ·) := rfl
  have htypes : readType = "Object" ∧ writeType = "Object" := by
    have hlines := hblock.symm.trans hknown
    simpa [attributeLines, Access.reads, Access.writes] using hlines
  obtain ⟨rfl, rfl⟩ := htypes
  exact ⟨hindent, hsaid legible_guardedTags,
    hattribute hname (fun _ => by decide) (fun _ => by decide)⟩

end RubyDoc.Block
