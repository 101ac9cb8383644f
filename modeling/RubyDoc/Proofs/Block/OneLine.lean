import RubyDoc.Proofs.Analysis.Break
import RubyDoc.Proofs.Block.Documented
import RubyDoc.Proofs.Edit.PlanRun

/-!
# Rendered lines

Every line that is rendered is a comment line, but not every one is a single line: it is filled with
texts of other origin, and these are written as they are.  A rendered line holds a line break
exactly if it holds such a text that does (`line_broken_iff`).  What the texts of parsed sources and
signature files look like is not looked at here.
-/

namespace RubyDoc.Block

open Text Comment Outline Signature Analysis Syntax Lookups Edit

/-- The types that a signature declares. -/
def typesOf (sig : Signature) : List Text :=
  sig.returnType :: (sig.paramTypes.map Prod.snd ++ sig.restElement.toList ++ sig.restValue.toList)

/-- A text of other origin that lines for a definition can be filled with, when the lookups start
from `l`. -/
inductive Ingredient (b : Builder) (d : Definition) (l : Lookups) : Text → Prop
  | message (h : b.settings.emit.description) :
      Ingredient b d l (b.settings.messageFor d.scope d.visibility)
  | fallback : Ingredient b d l b.settings.inference.fallback
  | name : Ingredient b d l d.name
  | container : Ingredient b d l d.container
  | parameter {p : Parameter} (h : p ∈ inferredParameters b.settings b.source d) :
      Ingredient b d l p.name
  | constant {n : Node} (hn : n ∈ d.node.preorder) (hkind : n.kind = .constant) :
      Ingredient b d l (b.source.textOf n)
  | signature {l' : Lookups} (hl : Reaches b.provider l l') {key : Key}
      (hkey : key = keyOf d ∨ key = writerKeyOf d) {sig : Signature}
      (hfound : (Lookups.find b.provider key l').1 = .found sig) {type : Text}
      (htype : type ∈ typesOf sig) : Ingredient b d l type

variable {b : Builder} {d : Definition} {l : Lookups}

theorem constants_ingredient : Constants (Ingredient b d l) b.source d.node :=
  fun _ hn hkind => .constant hn hkind

theorem brokenBy_fallback : BrokenBy (Ingredient b d l) b.settings.inference.fallback :=
  .ofPart .fallback

theorem read_eq_ok {α : Type} {f : Finding} {part : Signature → Option α} {a : Option α}
    (h : f.read part = .ok a) : a = none ∨ ∃ sig, f = .found sig ∧ a = part sig := by
  cases f with
  | nothing => exact Or.inl (Except.ok.inj h).symm
  | found sig => exact Or.inr ⟨sig, rfl, (Except.ok.inj h).symm⟩
  | unreadable t => cases h

/-! ## The lines of a method -/

theorem isBroken_visibilityName (v : Visibility) : isBroken v.name = false := by
  cases v <;> rfl

theorem brokenBy_visibilityTag {P : Text → Prop} (v : Visibility) :
    BrokenBy P (Tag.visibility v).line :=
  (BrokenBy.ofUnbroken rfl).append (.ofUnbroken (isBroken_visibilityName v))

section Found

variable {f : Finding} (hf : ∀ sig, f = .found sig → ∀ type ∈ typesOf sig, Ingredient b d l type)
include hf

/-- The type of a parameter in a signature is one of its types, perhaps in an array or a hash. -/
theorem brokenBy_signatureType? {sig : Signature} (hsig : f = .found sig) (s : Settings)
    {p : Parameter} {type : Text} (h : signatureType? s p sig = some type) :
    BrokenBy (Ingredient b d l) type := by
  have htypes := hf sig hsig
  rw [signatureType?] at h
  split at h
  · rename_i _ element _ helement
    rw [← Option.some.inj h]
    split
    · exact .ofUnbroken rfl
    · refine ((BrokenBy.ofUnbroken rfl).append (.ofPart (htypes element ?_))).append
        (.ofUnbroken rfl)
      simp [typesOf, helement]
  · rename_i value _ hvalue
    rw [← Option.some.inj h]
    split
    · exact .ofUnbroken rfl
    · refine ((BrokenBy.ofUnbroken rfl).append (.ofPart (htypes value ?_))).append (.ofUnbroken rfl)
      simp [typesOf, hvalue]
  · refine .ofPart (htypes type ?_)
    obtain ⟨before, after, hsplit, -⟩ := List.lookup_eq_some_iff.1 h
    simp [typesOf, hsplit]

theorem brokenBy_paramTag {p : Parameter} (hp : p ∈ inferredParameters b.settings b.source d)
    {t : Tag} (h : paramTag b.settings f p = .ok t) : BrokenBy (Ingredient b d l) t.line := by
  obtain ⟨type, htype, h⟩ := bind_eq_ok h
  rw [← Except.ok.inj h]
  have hgiven : BrokenBy (Ingredient b d l) (type.getD p.type) := by
    refine .getD (fun given hgiven => ?_)
      (brokenBy_parameters brokenBy_fallback constants_ingredient p hp)
    rcases read_eq_ok htype with hnone | ⟨sig, hsig, heq⟩
    · rw [hnone] at hgiven
      cases hgiven
    · exact brokenBy_signatureType? hf hsig b.settings (heq.symm.trans hgiven)
  exact ((((BrokenBy.ofUnbroken rfl).append hgiven).append (.ofUnbroken rfl)).append
    (.ofPart (.parameter hp))).append (.ofUnbroken rfl)

theorem brokenBy_returnType {type : Text} (h : returnType b.settings b.source d f = .ok type) :
    BrokenBy (Ingredient b d l) type := by
  obtain ⟨declared, hdeclared, h⟩ := bind_eq_ok h
  rw [← Except.ok.inj h]
  refine .getD (fun given hgiven => ?_)
    (brokenBy_returnSpec brokenBy_fallback constants_ingredient).1
  rcases read_eq_ok hdeclared with hnone | ⟨sig, hsig, heq⟩
  · rw [hnone] at hgiven
    cases hgiven
  · refine .ofPart (hf sig hsig given ?_)
    rw [← Option.some.inj (heq.symm.trans hgiven)]
    exact List.mem_cons_self

omit hf in
theorem brokenBy_returnTags {type : Text} (htype : BrokenBy (Ingredient b d l) type) :
    ∀ t ∈ returnTags b.settings b.source d type, BrokenBy (Ingredient b d l) t.line := by
  intro t ht
  simp only [returnTags, List.mem_append, List.mem_ite_nil_right, List.mem_singleton,
    List.mem_map] at ht
  rcases ht with ⟨-, rfl⟩ | ⟨-, branch, hbranch, rfl⟩
  · exact ((BrokenBy.ofUnbroken rfl).append htype).append (.ofUnbroken rfl)
  · obtain ⟨herrors, hresult⟩ :=
      (brokenBy_returnSpec brokenBy_fallback constants_ingredient).2 branch hbranch
    exact (((BrokenBy.ofUnbroken rfl).append hresult).append (.ofUnbroken rfl)).append
      (.join (.ofUnbroken rfl) herrors)

theorem brokenBy_tagsWith {returns tags : List Tag}
    (h : tagsWith b.settings b.source d f returns = .ok tags)
    (hreturns : ∀ t ∈ returns, BrokenBy (Ingredient b d l) t.line) :
    ∀ t ∈ tags, BrokenBy (Ingredient b d l) t.line := by
  intro t ht
  cases givesTag_of_tagsWith h t ht with
  | visibility => exact brokenBy_visibilityTag d.visibility
  | moduleFunction copy =>
      exact ((((BrokenBy.ofUnbroken rfl).append (.ofPart .name)).append (.ofUnbroken rfl)).append
        (.ofUnbroken (isBroken_visibilityName copy))).append (.ofUnbroken rfl)
  | param hp htag => exact brokenBy_paramTag hf hp htag
  | raised herror =>
      exact ((BrokenBy.ofUnbroken rfl).append
        (brokenBy_raisedTypes constants_ingredient _ herror)).append (.ofUnbroken rfl)
  | result ht => exact hreturns t ht

theorem brokenBy_methodLines {lines : List Text}
    (h : methodLines b.settings b.source d f = .ok lines) :
    ∀ line ∈ lines, BrokenBy (Ingredient b d l) line := by
  obtain ⟨type, tags, htype, htags, rfl⟩ := methodLines_eq_ok h
  have htype := brokenBy_returnType hf htype
  have hid : BrokenBy (Ingredient b d l) d.id :=
    ((BrokenBy.ofPart .container).append (.ofUnbroken (by cases d.scope <;> rfl))).append
      (.ofPart .name)
  intro line hline
  simp only [headingLines, descriptionLines, List.mem_append, List.mem_ite_nil_right,
    List.mem_cons, List.not_mem_nil, or_false, List.mem_map] at hline
  rcases hline with (⟨-, rfl | rfl⟩ | ⟨hemit, rfl | rfl⟩) | ⟨t, ht, rfl⟩
  · exact (((BrokenBy.ofUnbroken rfl).append hid).append (.ofUnbroken rfl)).append htype
  · exact .ofUnbroken rfl
  · exact (BrokenBy.ofUnbroken rfl).append (.ofPart (.message hemit))
  · exact .ofUnbroken rfl
  · exact brokenBy_tagsWith hf htags (brokenBy_returnTags htype) t ht

theorem brokenBy_missingTags {e : Existing} {missing : List Tag}
    (h : missingTags b.settings b.source d f e = .ok missing) :
    ∀ t ∈ missing, BrokenBy (Ingredient b d l) t.line := by
  obtain ⟨returns, tags, htags, rfl, hreturns⟩ := missingTags_eq_ok h
  intro t ht
  refine brokenBy_tagsWith hf htags (fun u hu => ?_) t (List.mem_of_mem_filter ht)
  rcases hreturns with ⟨-, rfl⟩ | ⟨type, rfl, htype⟩
  · cases hu
  · exact brokenBy_returnTags (brokenBy_returnType hf htype) u hu

end Found

/-! ## The lines of an attribute -/

theorem brokenBy_attributeLines {P : Text → Prop} (s : Settings) {access : Access}
    {readType writeType : Text} (hname : P d.name) (hread : BrokenBy P readType)
    (hwrite : BrokenBy P writeType) :
    ∀ line ∈ attributeLines s d access readType writeType, BrokenBy P line := by
  intro line hline
  simp only [attributeLines, List.mem_append, List.mem_singleton, List.mem_ite_nil_right] at hline
  rcases hline with ((rfl | ⟨-, rfl⟩) | ⟨-, rfl⟩) | ⟨-, rfl⟩
  · have hletters : isBroken access.letters = false := by cases access <;> rfl
    exact (((BrokenBy.ofUnbroken rfl).append (.ofUnbroken hletters)).append
      (.ofUnbroken rfl)).append (.ofPart hname)
  · exact (BrokenBy.ofUnbroken rfl).append (.ofUnbroken (isBroken_visibilityName d.visibility))
  · exact ((BrokenBy.ofUnbroken rfl).append hread).append (.ofUnbroken rfl)
  · exact ((BrokenBy.ofUnbroken rfl).append hwrite).append (.ofUnbroken rfl)

theorem mem_typesOf_writtenType (sig : Signature) : writtenType sig ∈ typesOf sig := by
  rw [writtenType]
  cases h : sig.paramTypes.lookup (Text.ofString "value") with
  | none => exact List.mem_cons_self
  | some type =>
      obtain ⟨before, after, hsplit, -⟩ := List.lookup_eq_some_iff.1 h
      simp [typesOf, hsplit]

section Attribute

variable {m m' : Lookups} (hm : Reaches b.provider l m)
include hm

/-- The type under a key of an attribute comes from what is found there. -/
theorem brokenBy_attributeType {key : Key} (hkey : key = keyOf d ∨ key = writerKeyOf d)
    {part : Signature → Text} (hpart : ∀ sig, part sig ∈ typesOf sig) {type : Text}
    (h : (b.attributeType key part).run.run m = (.ok type, m')) :
    BrokenBy (Ingredient b d l) type ∧ Reaches b.provider l m' := by
  have hfind : (liftM (b.find key) : ExceptT Trouble (StateM Lookups) Finding).run.run m =
      (.ok (Lookups.find b.provider key m).1, (Lookups.find b.provider key m).2) := rfl
  rw [Builder.attributeType, run_bind_ok hfind] at h
  cases hread : (Lookups.find b.provider key m).1.read (fun sig => some (part sig)) with
  | error t =>
      rw [hread] at h
      cases (Prod.mk.inj h).1
  | ok given =>
      rw [hread] at h
      obtain ⟨htype, rfl⟩ := Prod.mk.inj h
      obtain rfl := Except.ok.inj htype
      refine ⟨.getD (fun type htype => ?_) brokenBy_fallback, hm.find key⟩
      rcases read_eq_ok hread with hnone | ⟨sig, hsig, heq⟩
      · rw [hnone] at htype
        cases htype
      · rw [← Option.some.inj (heq.symm.trans htype)]
        exact .ofPart (.signature hm hkey hsig (hpart sig))

/-- So does a type that is not looked up, since it is the fallback type. -/
theorem brokenBy_typeIf {key : Key} (hkey : key = keyOf d ∨ key = writerKeyOf d)
    {part : Signature → Text} (hpart : ∀ sig, part sig ∈ typesOf sig) {asked : Bool} {type : Text}
    (h : (if asked then b.attributeType key part
      else pure b.settings.inference.fallback).run.run m = (.ok type, m')) :
    BrokenBy (Ingredient b d l) type ∧ Reaches b.provider l m' := by
  cases asked with
  | true => exact brokenBy_attributeType hm hkey hpart h
  | false =>
      obtain ⟨htype, rfl⟩ := Prod.mk.inj h
      rw [← Except.ok.inj htype]
      exact ⟨brokenBy_fallback, hm⟩

end Attribute

theorem brokenBy_attributeBlock {access : Access} {lines : List Text} {l' : Lookups}
    (h : (b.attributeBlock d access).run.run l = (.ok lines, l')) :
    ∀ line ∈ lines, BrokenBy (Ingredient b d l) line := by
  rw [Builder.attributeBlock_eq] at h
  obtain ⟨readType, m, hread, h⟩ := run_bind_eq_ok h
  obtain ⟨writeType, m', hwrite, h⟩ := run_bind_eq_ok h
  obtain ⟨hread, hm⟩ :=
    brokenBy_typeIf .refl (Or.inl rfl) (fun sig => List.mem_cons_self) hread
  obtain ⟨hwrite, -⟩ := brokenBy_typeIf hm (Or.inr rfl) mem_typesOf_writtenType hwrite
  rw [← Except.ok.inj (Prod.mk.inj h).1]
  exact brokenBy_attributeLines b.settings .name hread hwrite

/-! ## Rendered lines -/

theorem types_of_find : ∀ sig, (Lookups.find b.provider (keyOf d) l).1 = .found sig →
    ∀ type ∈ typesOf sig, Ingredient b d l type :=
  fun _ hsig _ htype => .signature .refl (Or.inl rfl) hsig htype

/-- Lines that are settled are those of a result without trouble. -/
theorem mem_settle {r : Except Trouble (List Text)} {m : Lookups} {line : Text}
    (h : line ∈ ((b.settle d r).run m).1) : ∃ lines, r = .ok lines ∧ line ∈ lines := by
  cases r with
  | ok lines => exact ⟨lines, rfl, h⟩
  | error t =>
      rw [Builder.settle_error] at h
      cases h

theorem brokenBy_rawBlock :
    ∀ line ∈ ((b.rawBlock d).run l).1, BrokenBy (Ingredient b d l) line := by
  intro line hline
  rcases hrole : d.role with copy | access
  · rw [Builder.run_rawBlock_of_method hrole] at hline
    obtain ⟨lines, hlines, hline⟩ := mem_settle hline
    exact brokenBy_methodLines types_of_find hlines line hline
  · rw [Builder.run_rawBlock_of_attribute hrole] at hline
    obtain ⟨lines, hlines, hline⟩ := mem_settle hline
    exact brokenBy_attributeBlock (Prod.ext hlines rfl) line hline

section Indented

variable {indent : Text} (hindent : ∀ c ∈ indent, isIndentSym c)
include hindent

theorem isBroken_indent : isBroken indent = false := by
  refine isBroken_eq_false_iff.2 ⟨fun h => ?_, fun h => ?_⟩
  · exact absurd (hindent _ h) (by decide)
  · exact absurd (hindent _ h) (by decide)

theorem brokenBy_of_mem_block {line : Text} (h : line ∈ ((b.block d indent).run l).1) :
    BrokenBy (Ingredient b d l) line := by
  obtain ⟨raw, hraw, rfl⟩ := List.mem_map.1 h
  exact (BrokenBy.ofUnbroken (isBroken_indent hindent)).append
    (brokenBy_rawBlock raw (mem_of_mem_dropBlankEnd hraw))

theorem brokenBy_of_mem_additions {existing : List Text} {line : Text}
    (h : line ∈ ((b.additions d existing indent).run l).1) : BrokenBy (Ingredient b d l) line := by
  -- Additions may begin with a blank comment line, which nothing breaks.
  have hjoining : ∀ lines : List Text, (∀ raw ∈ lines, BrokenBy (Ingredient b d l) raw) →
      ∀ raw ∈ joining (.ofLines existing) lines, BrokenBy (Ingredient b d l) raw := by
    intro lines hlines raw hraw
    rcases eq_blank_or_mem_of_mem_joining hraw with rfl | hraw
    · exact .ofUnbroken rfl
    · exact hlines raw hraw
  have hraw : ∃ raw, line = indent ++ raw ∧ BrokenBy (Ingredient b d l) raw := by
    rcases hrole : d.role with copy | access
    · rw [Builder.run_additions_of_method hrole] at h
      obtain ⟨raw, hraw, rfl⟩ := List.mem_map.1 h
      refine ⟨raw, rfl, ?_⟩
      obtain ⟨lines, hlines, hraw⟩ := mem_settle hraw
      cases hmissing : missingTags b.settings b.source d (Lookups.find b.provider (keyOf d) l).1
          (.ofLines existing) with
      | error t =>
          rw [hmissing] at hlines
          cases hlines
      | ok tags =>
          rw [hmissing] at hlines
          obtain rfl := Except.ok.inj hlines
          refine hjoining _ (fun m hm => ?_) raw hraw
          obtain ⟨t, ht, rfl⟩ := List.mem_map.1 hm
          exact brokenBy_missingTags types_of_find hmissing t ht
    · rw [Builder.run_additions_of_attribute hrole] at h
      split at h
      · cases h
      · obtain ⟨raw, hraw, rfl⟩ := List.mem_map.1 h
        refine ⟨raw, rfl, ?_⟩
        obtain ⟨lines, hlines, hraw⟩ := mem_settle hraw
        rcases hblock : (b.attributeBlock d access).run.run l with ⟨t | whole, m⟩
        · rw [hblock] at hlines
          cases hlines
        · rw [hblock] at hlines
          obtain rfl := Except.ok.inj hlines
          exact hjoining _ (brokenBy_attributeBlock hblock) raw hraw
  obtain ⟨raw, rfl, hraw⟩ := hraw
  exact (BrokenBy.ofUnbroken (isBroken_indent hindent)).append hraw

/-- **What breaks a rendered line.**  It is a comment line, and a line break in it comes from a text
of other origin that it is filled with. -/
theorem line_broken_iff {existing : List Text} {line : Text}
    (h : line ∈ ((b.block d indent).run l).1 ∨
      line ∈ ((b.additions d existing indent).run l).1) :
    isComment line ∧
      (isBroken line ↔ ∃ t, Ingredient b d l t ∧ isBroken t ∧ t <:+: line) := by
  have hsigned : ∃ rest, line = indent ++ .char '#' :: rest :=
    h.elim signed_of_mem_block signed_of_mem_additions
  have hbroken : BrokenBy (Ingredient b d l) line :=
    h.elim (brokenBy_of_mem_block hindent) (brokenBy_of_mem_additions hindent)
  refine ⟨?_, hbroken, fun ⟨_, _, ht, hin⟩ => isBroken_of_isInfix hin ht⟩
  obtain ⟨rest, rfl⟩ := hsigned
  exact isComment_indented hindent rest

end Indented

/-- The heading of a bare method is one line, and so is all that it is filled with. -/
theorem line_broken_iff_heading :
    (∀ c ∈ ([] : Text), isIndentSym c) ∧
      (Text.ofString "# +Object#go+ -> Object" ∈ ((plainGo.block (bareMethod "go" 0) []).run {}).1 ∨
        Text.ofString "# +Object#go+ -> Object" ∈
          ((plainGo.additions (bareMethod "go" 0) [] []).run {}).1) ∧
      isComment "# +Object#go+ -> Object" ∧
      ∀ t, Ingredient plainGo (bareMethod "go" 0) {} t → t <:+: "# +Object#go+ -> Object" →
        isBroken t = false := by
  have hindent : ∀ c ∈ ([] : Text), isIndentSym c := fun c hc => absurd hc List.not_mem_nil
  have hline : Text.ofString "# +Object#go+ -> Object" ∈
      ((plainGo.block (bareMethod "go" 0) []).run {}).1 := List.mem_cons_self
  have hmember : _ ∨ Text.ofString "# +Object#go+ -> Object" ∈
      ((plainGo.additions (bareMethod "go" 0) [] []).run {}).1 := Or.inl hline
  obtain ⟨hcomment, hbroken⟩ := line_broken_iff hindent hmember
  refine ⟨hindent, hmember, hcomment, fun t ht hin => ?_⟩
  rw [Bool.eq_false_iff]
  intro hb
  exact absurd (hbroken.2 ⟨t, ht, hb, hin⟩) (by decide)

/-! ## A line that is not one line -/

/-- The bare method `go` with a description of two lines. -/
def twoLineGo : Builder :=
  { plainGo with settings := { doc := { message := "First.\nSecond." } } }

/-- The plan that puts the block above the method. -/
def twoLinePlan : Plan where
  start := 0
  stop := 0
  lines := ["# +Object#go+ -> Object", "#", "# First.\nSecond.", "#", "# @return [Object]"]
  indent := []

/-- **A description of two lines brings code into the text.** -/
theorem line_broken_by_message :
    (planAll twoLineGo .insert [bareMethod "go" 0]).run.run {} = (.ok [twoLinePlan], {}) ∧
      ((twoLineGo.block (bareMethod "go" 0) []).run {}).1 = twoLinePlan.lines ∧
      (∃ line ∈ twoLinePlan.lines, Sym.lineFeed ∈ line) ∧
      Text.ofString "Second." ∈ (apply twoLineGo.source.text [twoLinePlan]).lines ∧
      isCode "Second." ∧ Text.ofString "Second." ∉ twoLineGo.source.text.lines := by
  refine ⟨?_, rfl, by decide, ?_, by decide, by decide⟩
  · rw [planAll_singleton]
    rfl
  · rw [apply, ranges_singleton]
    decide

end RubyDoc.Block
