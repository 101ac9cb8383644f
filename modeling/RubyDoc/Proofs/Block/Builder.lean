import RubyDoc.Block.Builder
import RubyDoc.Proofs.Comment.Above
import RubyDoc.Proofs.Signature.Lookup

/-!
# What a builder renders

Every line of a block is a comment line, and which lines there are is decided by the definition,
what its source shows of it and what the lookups found.  So two builders whose sources show the same
of a definition render the same lines as long as their lookups agree, whatever they filter and
whichever providers they ask (`block_parallel`).  What a line says is not looked at here.
-/

namespace RubyDoc.Block

open Syntax Outline Signature Analysis

/-- Is `d'` in the source `src'` the same member as `d` in the source `src`, and does its text show
the same? -/
structure Alike (s : Settings) (src : Source) (d : Definition) (src' : Source) (d' : Definition) :
    Prop where
  name : d'.name = d.name
  container : d'.container = d.container
  scope : d'.scope = d.scope
  visibility : d'.visibility = d.visibility
  role : d'.role = d.role
  returns : inferredReturns s src' d' = inferredReturns s src d
  params : inferredParameters s src' d' = inferredParameters s src d
  raised : raisedTypes src' d'.node = raisedTypes src d.node

namespace Alike

theorem refl (s : Settings) (src : Source) (d : Definition) : Alike s src d src d :=
  ⟨rfl, rfl, rfl, rfl, rfl, rfl, rfl, rfl⟩

variable {s : Settings} {src src' : Source} {d d' : Definition} (h : Alike s src d src' d')
include h

theorem keyOf_eq : keyOf d' = keyOf d := by
  rw [keyOf, keyOf, h.name, h.container, h.scope]

theorem writerKeyOf_eq : writerKeyOf d' = writerKeyOf d := by
  rw [writerKeyOf, writerKeyOf, h.name, h.container, h.scope]

theorem id_eq : d'.id = d.id := by
  rw [Definition.id, Definition.id, h.name, h.container, h.scope]

theorem tagsWith_eq (f : Finding) (returns : List Tag) :
    tagsWith s src' d' f returns = tagsWith s src d f returns := by
  simp only [tagsWith, paramTags, visibilityTags, moduleFunctionTags, raisedTags, Definition.copy?,
    h.name, h.visibility, h.role, h.params, h.raised]

theorem returnType_eq (f : Finding) : returnType s src' d' f = returnType s src d f := by
  simp only [returnType, h.returns]

theorem returnTags_eq (type : Text) : returnTags s src' d' type = returnTags s src d type := by
  simp only [returnTags, h.returns, h.scope, h.visibility]

theorem methodLines_eq (f : Finding) : methodLines s src' d' f = methodLines s src d f := by
  simp only [methodLines, h.tagsWith_eq, h.returnType_eq, h.returnTags_eq, headingLines, h.id_eq,
    descriptionLines, h.scope, h.visibility]

theorem missingTags_eq (f : Finding) (e : Existing) :
    missingTags s src' d' f e = missingTags s src d f e := by
  simp only [missingTags, h.tagsWith_eq, h.returnType_eq, h.returnTags_eq]

theorem attributeLines_eq (access : Access) (readType writeType : Text) :
    attributeLines s d' access readType writeType =
      attributeLines s d access readType writeType := by
  simp only [attributeLines, h.name, h.visibility]

end Alike

namespace Builder

open Lookups

theorem attributeBlock_eq (b : Builder) (d : Definition) (access : Access) :
    b.attributeBlock d access =
      (if access.reads then b.attributeType (keyOf d) Signature.returnType
        else pure b.settings.inference.fallback) >>= fun readType =>
      (if access.writes then b.attributeType (writerKeyOf d) writtenType
        else pure b.settings.inference.fallback) >>= fun writeType =>
      pure (attributeLines b.settings d access readType writeType) := by
  cases access <;> rfl

/-! ## Two builders -/

/-- Filters are for whole definitions, and no line depends on them. -/
theorem methodLines_filter (s : Settings) (f : Settings.Filter) (src : Source) (d : Definition)
    (found : Finding) :
    methodLines { s with filter := f } src d found = methodLines s src d found :=
  rfl

theorem missingTags_filter (s : Settings) (f : Settings.Filter) (src : Source) (d : Definition)
    (found : Finding) (e : Existing) :
    missingTags { s with filter := f } src d found e = missingTags s src d found e :=
  rfl

theorem attributeLines_filter (s : Settings) (f : Settings.Filter) (d : Definition)
    (access : Access) (readType writeType : Text) :
    attributeLines { s with filter := f } d access readType writeType =
      attributeLines s d access readType writeType :=
  rfl

section Parallel

/-- The builder for another text, with another filter and another provider. -/
def varied (b : Builder) (src : Source) (f : Settings.Filter) (provider : Option Provider) :
    Builder :=
  { b with source := src, settings := { b.settings with filter := f }, provider }

variable {b : Builder} {d : Definition} {src' : Source} {d' : Definition} (f : Settings.Filter)
  {provider' : Option Provider}

theorem settle_parallel (r : Except Trouble (List Text)) :
    Parallel b.provider provider' (b.settle d r) ((b.varied src' f provider').settle d' r) := by
  cases r with
  | ok lines => exact .pure lines
  | error t =>
      rw [settle, settle, varied]
      split
      · refine Parallel.bind (α := PUnit) ⟨fun l => ?_, fun l => ?_, fun _ _ _ _ _ _ _ => rfl⟩
          fun _ => .pure []
        · exact .report _ .refl
        · exact .report _ .refl
      · exact Parallel.bind (.pure ()) fun _ => .pure []

variable (hboth : provider'.isSome = b.provider.isSome)
include hboth

theorem attributeType_parallel (key : Key) (part : Signature → Text) :
    Parallel b.provider provider' (b.attributeType key part).run
      ((b.varied src' f provider').attributeType key part).run := by
  refine Parallel.bindExcept ?_ fun found => ?_
  · exact (Parallel.find hboth key).bind fun found => .pure (Except.ok found)
  · refine Parallel.bindExcept ?_ fun type => .pure (Except.ok _)
    cases found.read (fun sig => some (part sig)) with
    | ok a => exact .pure _
    | error t => exact .pure _

variable (h : Alike b.settings b.source d src' d')
include h

theorem attributeBlock_parallel (access : Access) :
    Parallel b.provider provider' (b.attributeBlock d access).run
      ((b.varied src' f provider').attributeBlock d' access).run := by
  rw [attributeBlock_eq, attributeBlock_eq, h.keyOf_eq, h.writerKeyOf_eq]
  refine Parallel.bindExcept ?_ fun readType => Parallel.bindExcept ?_ fun writeType => ?_
  · split
    · exact attributeType_parallel f hboth _ _
    · exact .pure _
  · split
    · exact attributeType_parallel f hboth _ _
    · exact .pure _
  · rw [← h.attributeLines_eq, ← attributeLines_filter b.settings f]
    exact .pure _

theorem rawBlock_parallel :
    Parallel b.provider provider' (b.rawBlock d) ((b.varied src' f provider').rawBlock d') := by
  rw [rawBlock, rawBlock, h.role]
  split
  · rw [h.keyOf_eq]
    refine (Parallel.find hboth _).bind fun found => ?_
    rw [← h.methodLines_eq, ← methodLines_filter b.settings f]
    exact settle_parallel f _
  · exact (attributeBlock_parallel f hboth h _).bind fun r => settle_parallel f r

theorem block_parallel (indent : Text) :
    Parallel b.provider provider' (b.block d indent)
      ((b.varied src' f provider').block d' indent) :=
  (rawBlock_parallel f hboth h).bind fun _ => .pure _

theorem additions_parallel (existing : List Text) (indent : Text) :
    Parallel b.provider provider' (b.additions d existing indent)
      ((b.varied src' f provider').additions d' existing indent) := by
  rw [additions, additions, h.role]
  split
  · rw [h.keyOf_eq]
    refine (Parallel.find hboth _).bind fun found => ?_
    rw [← h.missingTags_eq, ← missingTags_filter b.settings f]
    exact (settle_parallel f _).bind fun _ => .pure _
  · rw [h.name]
    split
    · exact .pure _
    · exact (attributeBlock_parallel f hboth h _).bind fun r =>
        (settle_parallel f _).bind fun _ => .pure _

end Parallel

section Concur

variable {b : Builder} {d : Definition} {src' : Source} {d' : Definition}
  (h : Alike b.settings b.source d src' d')
include h

/-- Builders whose sources show the same of a definition render the same lines for it. -/
theorem block_concur (indent : Text) :
    Concur b.provider (b.block d indent) (block { b with source := src' } d' indent) :=
  (block_parallel b.settings.filter rfl h indent).concur

end Concur

/-! ## Which lines there can be -/

section Readable

variable (b : Builder) {l : Lookups}

theorem attributeType_of_readable {key : Key} (h : (Lookups.find b.provider key l).1.Readable)
    (part : Signature → Text) :
    ∃ type, (b.attributeType key part).run.run l =
      (.ok type, (Lookups.find b.provider key l).2) := by
  obtain ⟨a, ha⟩ := h.read_eq fun sig => some (part sig)
  have hfind : (liftM (b.find key) : ExceptT Trouble (StateM Lookups) Finding).run.run l =
      (.ok (Lookups.find b.provider key l).1, (Lookups.find b.provider key l).2) := rfl
  refine ⟨a.getD b.settings.inference.fallback, ?_⟩
  rw [attributeType, run_bind_ok hfind, ha]
  rfl

/-- The lines of an attribute are those for some types, unless there is trouble. -/
theorem attributeBlock_result (d : Definition) (access : Access) (l : Lookups) :
    (∃ t l', (b.attributeBlock d access).run.run l = (.error t, l')) ∨
      ∃ readType writeType l', (b.attributeBlock d access).run.run l =
        (.ok (attributeLines b.settings d access readType writeType), l') := by
  rw [attributeBlock_eq]
  -- The lines have this form whatever computes the two types.
  generalize (if access.reads then b.attributeType (keyOf d) Signature.returnType
    else pure b.settings.inference.fallback) = x
  generalize (if access.writes then b.attributeType (writerKeyOf d) writtenType
    else pure b.settings.inference.fallback) = y
  rcases hx : x.run.run l with ⟨t | readType, lx⟩
  · exact Or.inl ⟨t, lx, run_bind_error hx⟩
  · rw [run_bind_ok hx]
    rcases hy : y.run.run lx with ⟨t | writeType, ly⟩
    · exact Or.inl ⟨t, ly, run_bind_error hy⟩
    · exact Or.inr ⟨readType, writeType, ly, run_bind_ok hy⟩

/-- The lookups in which the writer of an attribute is looked up. -/
def afterReader (d : Definition) (access : Access) (l : Lookups) : Lookups :=
  if access.reads then (Lookups.find b.provider (keyOf d) l).2 else l

/-- The lines are there if what is found for the reader and the writer can be read. -/
theorem attributeBlock_of_answers {d : Definition} {access : Access}
    (hreader : access.reads → (Lookups.find b.provider (keyOf d) l).1.Readable)
    (hwriter : access.writes →
      (Lookups.find b.provider (writerKeyOf d) (b.afterReader d access l)).1.Readable) :
    ∃ readType writeType l', (b.attributeBlock d access).run.run l =
      (.ok (attributeLines b.settings d access readType writeType), l') := by
  have hread : ∃ readType, (if access.reads then b.attributeType (keyOf d) Signature.returnType
      else pure b.settings.inference.fallback).run.run l =
        (.ok readType, b.afterReader d access l) := by
    rw [afterReader]
    split
    · rename_i h
      exact attributeType_of_readable b (hreader h) _
    · exact ⟨_, rfl⟩
  have hwrite : ∃ writeType l', (if access.writes then b.attributeType (writerKeyOf d) writtenType
      else pure b.settings.inference.fallback).run.run (b.afterReader d access l) =
        (.ok writeType, l') := by
    split
    · rename_i h
      obtain ⟨writeType, hrun⟩ := attributeType_of_readable b (hwriter h) writtenType
      exact ⟨writeType, _, hrun⟩
    · exact ⟨_, _, rfl⟩
  obtain ⟨readType, hread⟩ := hread
  obtain ⟨writeType, l', hwrite⟩ := hwrite
  exact ⟨readType, writeType, l', by
    rw [attributeBlock_eq, run_bind_ok hread, run_bind_ok hwrite]
    rfl⟩

theorem attributeBlock_of_readable (hp : ∀ p, b.provider = some p → p.Readable) (hl : l.Readable)
    (d : Definition) (access : Access) :
    ∃ readType writeType l', (b.attributeBlock d access).run.run l =
      (.ok (attributeLines b.settings d access readType writeType), l') := by
  have hbetween : (b.afterReader d access l).Readable := by
    rw [afterReader]
    split
    · exact (find_readable hp hl _).2
    · exact hl
  exact b.attributeBlock_of_answers (fun _ => (find_readable hp hl _).1)
    fun _ => (find_readable hp hbetween _).1

end Readable

end Builder

/-- The blocks that a definition can get when `f` is found for it. -/
inductive Drafts (b : Builder) (d : Definition) (f : Finding) : List Text → Prop
  | ofMethod {copy : Option Visibility} {lines : List Text}
      (hrole : d.role = .method copy) (h : methodLines b.settings b.source d f = .ok lines) :
      Drafts b d f lines
  | ofAttribute {access : Access} (hrole : d.role = .attribute access) (readType writeType : Text) :
      Drafts b d f (attributeLines b.settings d access readType writeType)

/-- The lines that can join a comment of a definition when `f` is found for it. -/
inductive Supplements (b : Builder) (d : Definition) (f : Finding) (e : Existing) :
    List Text → Prop
  | ofMethod {copy : Option Visibility} {tags : List Tag}
      (hrole : d.role = .method copy) (h : missingTags b.settings b.source d f e = .ok tags) :
      Supplements b d f e (joining e (tags.map Tag.line))
  | known {access : Access} (hrole : d.role = .attribute access) (h : d.name ∈ e.attributes) :
      Supplements b d f e []
  | ofAttribute {access : Access} (hrole : d.role = .attribute access) (h : d.name ∉ e.attributes)
      (readType writeType : Text) :
      Supplements b d f e (joining e (attributeLines b.settings d access readType writeType))

namespace Builder

open Lookups

section Results

variable {b : Builder} {d : Definition}

theorem run_rawBlock_of_method {copy : Option Visibility} (hrole : d.role = .method copy)
    (l : Lookups) : (b.rawBlock d).run l =
      (b.settle d (methodLines b.settings b.source d (Lookups.find b.provider (keyOf d) l).1)).run
        (Lookups.find b.provider (keyOf d) l).2 := by
  rw [rawBlock, hrole]
  rfl

theorem run_rawBlock_of_attribute {access : Access} (hrole : d.role = .attribute access)
    (l : Lookups) : (b.rawBlock d).run l =
      (b.settle d ((b.attributeBlock d access).run.run l).1).run
        ((b.attributeBlock d access).run.run l).2 := by
  rw [rawBlock, hrole]
  rfl

theorem settle_reaches (r : Except Trouble (List Text)) (l : Lookups) :
    Reaches b.provider l ((b.settle d r).run l).2 := by
  have hsettle : Parallel b.provider b.provider (b.settle d r) (b.settle d r) :=
    settle_parallel b.settings.filter r
  exact hsettle.left l

/-- The block of a method begins with a lookup. -/
theorem reaches_block_of_method {copy : Option Visibility} (hrole : d.role = .method copy)
    (indent : Text) (l : Lookups) :
    Reaches b.provider (Lookups.find b.provider (keyOf d) l).2 ((b.block d indent).run l).2 := by
  show Reaches _ _ ((b.rawBlock d).run l).2
  rw [run_rawBlock_of_method hrole]
  exact settle_reaches _ _

/-- So does the search for the lines that a comment of a method lacks. -/
theorem reaches_additions_of_method {copy : Option Visibility} (hrole : d.role = .method copy)
    (existing : List Text) (indent : Text) (l : Lookups) :
    Reaches b.provider (Lookups.find b.provider (keyOf d) l).2
      ((b.additions d existing indent).run l).2 := by
  rw [additions, hrole]
  exact settle_reaches (b := b) (d := d) _ _

theorem settle_error (t : Trouble) (l : Lookups) : ((b.settle d (.error t)).run l).1 = [] := by
  rw [settle]
  split <;> rfl

theorem rawBlock_result (l : Lookups) :
    ((b.rawBlock d).run l).1 = [] ∨
      Drafts b d (Lookups.find b.provider (keyOf d) l).1 ((b.rawBlock d).run l).1 := by
  rcases hrole : d.role with copy | access
  · rw [run_rawBlock_of_method hrole]
    cases h : methodLines b.settings b.source d (Lookups.find b.provider (keyOf d) l).1 with
    | error t => exact Or.inl (settle_error t _)
    | ok lines => exact Or.inr (.ofMethod hrole h)
  · rw [run_rawBlock_of_attribute hrole]
    rcases b.attributeBlock_result d access l with ⟨t, l', h⟩ | ⟨readType, writeType, l', h⟩
    · rw [h]
      exact Or.inl (settle_error t _)
    · rw [h]
      exact Or.inr (.ofAttribute hrole readType writeType)

theorem paramTags_of_readable {f : Finding} (hf : f.Readable) (s : Settings) (src : Source) :
    ∃ tags, paramTags s src d f = .ok tags := by
  rw [paramTags]
  split
  · induction inferredParameters s src d with
    | nil => exact ⟨[], rfl⟩
    | cons p ps ih =>
        obtain ⟨tags, htags⟩ := ih
        obtain ⟨type, htype⟩ := hf.read_eq (signatureType? s p)
        exact ⟨.param p.name (type.getD p.type) :: tags, by
          rw [List.mapM_cons, htags, paramTag, htype]
          rfl⟩
  · exact ⟨[], rfl⟩

theorem tagsWith_of_readable {f : Finding} (hf : f.Readable) (s : Settings) (src : Source)
    (returns : List Tag) : ∃ tags, tagsWith s src d f returns = .ok tags := by
  obtain ⟨params, hparams⟩ := paramTags_of_readable (d := d) hf s src
  exact ⟨_, by rw [tagsWith, hparams]; rfl⟩

theorem returnType_of_readable {f : Finding} (hf : f.Readable) (s : Settings) (src : Source) :
    ∃ type, returnType s src d f = .ok type := by
  obtain ⟨declared, hdeclared⟩ := hf.read_eq fun sig => some sig.returnType
  exact ⟨_, by rw [returnType, hdeclared]; rfl⟩

theorem methodLines_of_readable {f : Finding} (hf : f.Readable) (s : Settings) (src : Source) :
    ∃ lines, methodLines s src d f = .ok lines := by
  obtain ⟨type, htype⟩ := returnType_of_readable (d := d) hf s src
  obtain ⟨tags, htags⟩ := tagsWith_of_readable (d := d) hf s src (returnTags s src d type)
  exact ⟨_, by
    rw [methodLines, htype]
    show (tagsWith s src d f (returnTags s src d type) >>= _) = _
    rw [htags]
    rfl⟩

/-- With readable answers there is a block. -/
theorem drafts_rawBlock {l : Lookups} (hp : ∀ p, b.provider = some p → p.Readable)
    (hl : l.Readable) :
    Drafts b d (Lookups.find b.provider (keyOf d) l).1 ((b.rawBlock d).run l).1 := by
  rcases hrole : d.role with copy | access
  · obtain ⟨lines, hlines⟩ :=
      methodLines_of_readable (d := d) (find_readable hp hl (keyOf d)).1 b.settings b.source
    rw [run_rawBlock_of_method hrole, hlines]
    exact .ofMethod hrole hlines
  · obtain ⟨readType, writeType, l', h⟩ := b.attributeBlock_of_readable hp hl d access
    rw [run_rawBlock_of_attribute hrole, h]
    exact .ofAttribute hrole readType writeType

theorem missingTags_of_readable {f : Finding} (hf : f.Readable) (s : Settings) (src : Source)
    (e : Existing) : ∃ tags, missingTags s src d f e = .ok tags := by
  obtain ⟨type, htype⟩ := returnType_of_readable (d := d) hf s src
  cases hreturn : e.hasReturn with
  | true =>
      obtain ⟨tags, htags⟩ := tagsWith_of_readable (d := d) hf s src []
      exact ⟨tags.filter fun t => !e.covers t, by
        simp only [missingTags, hreturn, if_true]
        show (tagsWith s src d f [] >>= _) = _
        rw [htags]
        rfl⟩
  | false =>
      obtain ⟨tags, htags⟩ := tagsWith_of_readable (d := d) hf s src (returnTags s src d type)
      exact ⟨tags.filter fun t => !e.covers t, by
        simp only [missingTags, hreturn, Bool.false_eq_true, if_false, htype]
        show (tagsWith s src d f (returnTags s src d type) >>= _) = _
        rw [htags]
        rfl⟩

theorem run_additions_of_method {copy : Option Visibility} (hrole : d.role = .method copy)
    (existing : List Text) (indent : Text) (l : Lookups) :
    ((b.additions d existing indent).run l).1 =
      ((b.settle d ((missingTags b.settings b.source d (Lookups.find b.provider (keyOf d) l).1
        (.ofLines existing)).map fun tags => joining (.ofLines existing) (tags.map Tag.line))).run
          (Lookups.find b.provider (keyOf d) l).2).1.map (indent ++ ·) := by
  rw [additions, hrole]
  rfl

theorem run_additions_of_attribute {access : Access} (hrole : d.role = .attribute access)
    (existing : List Text) (indent : Text) (l : Lookups) :
    ((b.additions d existing indent).run l).1 =
      if d.name ∈ (Existing.ofLines existing).attributes then []
      else ((b.settle d (((b.attributeBlock d access).run.run l).1.map
        (joining (.ofLines existing)))).run ((b.attributeBlock d access).run.run l).2).1.map
          (indent ++ ·) := by
  simp only [additions, hrole, List.contains_iff_mem]
  by_cases h : d.name ∈ (Existing.ofLines existing).attributes
  · rw [if_pos h, if_pos h]
    rfl
  · rw [if_neg h, if_neg h]
    rfl

theorem additions_result (existing : List Text) (indent : Text) (l : Lookups) :
    ∃ raw, ((b.additions d existing indent).run l).1 = raw.map (indent ++ ·) ∧
      (raw = [] ∨
        Supplements b d (Lookups.find b.provider (keyOf d) l).1 (.ofLines existing) raw) := by
  rcases hrole : d.role with copy | access
  · rw [run_additions_of_method hrole]
    refine ⟨_, rfl, ?_⟩
    cases h : missingTags b.settings b.source d (Lookups.find b.provider (keyOf d) l).1
      (.ofLines existing) with
    | error t => exact Or.inl (settle_error t _)
    | ok tags => exact Or.inr (.ofMethod hrole h)
  · rw [run_additions_of_attribute hrole]
    split
    · exact ⟨[], rfl, Or.inl rfl⟩
    · rename_i hnew
      refine ⟨_, rfl, ?_⟩
      rcases b.attributeBlock_result d access l with ⟨t, l', h⟩ | ⟨readType, writeType, l', h⟩
      · rw [h]
        exact Or.inl (settle_error t _)
      · rw [h]
        exact Or.inr (.ofAttribute hrole hnew readType writeType)

/-- With readable answers the missing lines are found. -/
theorem supplements_additions {l : Lookups} (hp : ∀ p, b.provider = some p → p.Readable)
    (hl : l.Readable) (existing : List Text) (indent : Text) :
    ∃ raw, ((b.additions d existing indent).run l).1 = raw.map (indent ++ ·) ∧
      Supplements b d (Lookups.find b.provider (keyOf d) l).1 (.ofLines existing) raw := by
  rcases hrole : d.role with copy | access
  · obtain ⟨tags, htags⟩ := missingTags_of_readable (d := d) (find_readable hp hl (keyOf d)).1
      b.settings b.source (.ofLines existing)
    rw [run_additions_of_method hrole, htags]
    exact ⟨_, rfl, .ofMethod hrole htags⟩
  · rw [run_additions_of_attribute hrole]
    split
    · rename_i hknown
      exact ⟨[], rfl, .known hrole hknown⟩
    · rename_i hnew
      obtain ⟨readType, writeType, l', h⟩ := b.attributeBlock_of_readable hp hl d access
      rw [h]
      exact ⟨_, rfl, .ofAttribute hrole hnew readType writeType⟩

end Results

end Builder

/-! ## Inside a method's block -/

section Method

variable {s : Settings} {src : Source} {d : Definition} {f : Finding}

theorem methodLines_eq_ok {lines : List Text} (h : methodLines s src d f = .ok lines) :
    ∃ type tags, returnType s src d f = .ok type ∧
      tagsWith s src d f (returnTags s src d type) = .ok tags ∧
      lines = headingLines s d type ++ descriptionLines s d ++ tags.map Tag.line := by
  obtain ⟨type, htype, h⟩ := Lookups.bind_eq_ok h
  obtain ⟨tags, htags, h⟩ := Lookups.bind_eq_ok h
  exact ⟨type, tags, htype, htags, (Except.ok.inj h).symm⟩

/-- Results are missing as a whole or not at all. -/
theorem missingTags_eq_ok {e : Existing} {missing : List Tag}
    (h : missingTags s src d f e = .ok missing) :
    ∃ returns tags, tagsWith s src d f returns = .ok tags ∧
      missing = tags.filter (fun t => !e.covers t) ∧
      (e.hasReturn ∧ returns = [] ∨
        ∃ type, returns = returnTags s src d type ∧ returnType s src d f = .ok type) := by
  cases hreturn : e.hasReturn with
  | true =>
      simp only [missingTags, hreturn, if_true] at h
      obtain ⟨type, -, h⟩ := Lookups.bind_eq_ok h
      obtain ⟨tags, htags, h⟩ := Lookups.bind_eq_ok h
      exact ⟨[], tags, htags, (Except.ok.inj h).symm, Or.inl ⟨rfl, rfl⟩⟩
  | false =>
      simp only [missingTags, hreturn, Bool.false_eq_true, if_false] at h
      obtain ⟨type, htype, h⟩ := Lookups.bind_eq_ok h
      obtain ⟨tags, htags, h⟩ := Lookups.bind_eq_ok h
      exact ⟨_, tags, htags, (Except.ok.inj h).symm, Or.inr ⟨type, rfl, htype⟩⟩

end Method

/-! ## Every line is a comment -/

/-- Does the line begin with the comment sign? -/
def IsSigned (line : Text) : Prop :=
  ∃ rest, line = .char '#' :: rest

theorem isSigned_blank : IsSigned blank := ⟨[], rfl⟩

theorem isSigned_tagLine (t : Tag) : IsSigned t.line := by
  cases t <;> exact ⟨_, rfl⟩

theorem isSigned_of_mem_attributeLines {s : Settings} {d : Definition} {access : Access}
    {readType writeType line : Text}
    (h : line ∈ attributeLines s d access readType writeType) : IsSigned line := by
  simp only [attributeLines, List.mem_append, List.mem_singleton, List.mem_ite_nil_right] at h
  rcases h with ((rfl | ⟨_, rfl⟩) | ⟨_, rfl⟩) | ⟨_, rfl⟩ <;> exact ⟨_, rfl⟩

theorem eq_blank_or_mem_of_mem_joining {e : Existing} {lines : List Text} {line : Text}
    (h : line ∈ joining e lines) : line = blank ∨ line ∈ lines := by
  rw [joining] at h
  split at h
  · exact Or.inr h
  · exact List.mem_cons.1 h

theorem isSigned_of_mem_joining {e : Existing} {lines : List Text} {line : Text}
    (hlines : ∀ l ∈ lines, IsSigned l) (h : line ∈ joining e lines) : IsSigned line := by
  rcases eq_blank_or_mem_of_mem_joining h with rfl | h
  · exact isSigned_blank
  · exact hlines line h

section Signed

variable {b : Builder} {d : Definition}

theorem isSigned_of_drafts {f : Finding} {lines : List Text} (h : Drafts b d f lines) :
    ∀ line ∈ lines, IsSigned line := by
  intro line hline
  cases h with
  | ofMethod hrole h =>
      obtain ⟨type, tags, _, _, rfl⟩ := methodLines_eq_ok h
      simp only [headingLines, descriptionLines, List.mem_append, List.mem_ite_nil_right,
        List.mem_cons, List.not_mem_nil, or_false, List.mem_map] at hline
      rcases hline with (⟨_, rfl | rfl⟩ | ⟨_, rfl | rfl⟩) | ⟨t, _, rfl⟩
      · exact ⟨_, rfl⟩
      · exact isSigned_blank
      · exact ⟨_, rfl⟩
      · exact isSigned_blank
      · exact isSigned_tagLine t
  | ofAttribute hrole readType writeType => exact isSigned_of_mem_attributeLines hline

theorem isSigned_of_supplements {f : Finding} {e : Existing} {lines : List Text}
    (h : Supplements b d f e lines) :
    ∀ line ∈ lines, IsSigned line := by
  intro line hline
  cases h with
  | ofMethod hrole h =>
      refine isSigned_of_mem_joining (fun l hl => ?_) hline
      obtain ⟨t, _, rfl⟩ := List.mem_map.1 hl
      exact isSigned_tagLine t
  | known hrole h => cases hline
  | ofAttribute hrole h readType writeType =>
      exact isSigned_of_mem_joining (fun l hl => isSigned_of_mem_attributeLines hl) hline

theorem mem_of_mem_dropBlankEnd {lines : List Text} {line : Text}
    (h : line ∈ Builder.dropBlankEnd lines) : line ∈ lines := by
  have hrev := List.mem_reverse.1 h
  exact List.mem_reverse.1 ((List.dropWhile_sublist _).subset hrev)

/-- Every line of a block is a comment line after the indentation. -/
theorem signed_of_mem_block {indent : Text} {l : Lookups} {line : Text}
    (h : line ∈ ((b.block d indent).run l).1) : ∃ rest, line = indent ++ .char '#' :: rest := by
  obtain ⟨raw, hraw, rfl⟩ := List.mem_map.1 h
  have hmem := mem_of_mem_dropBlankEnd hraw
  rcases Builder.rawBlock_result (b := b) (d := d) l with hnil | hdrafts
  · change raw ∈ ((b.rawBlock d).run l).1 at hmem
    rw [hnil] at hmem
    cases hmem
  · obtain ⟨rest, rfl⟩ := isSigned_of_drafts hdrafts raw hmem
    exact ⟨rest, rfl⟩

theorem signed_of_mem_additions {existing : List Text} {indent : Text} {l : Lookups} {line : Text}
    (h : line ∈ ((b.additions d existing indent).run l).1) :
    ∃ rest, line = indent ++ .char '#' :: rest := by
  obtain ⟨lines, hlines, hresult⟩ := Builder.additions_result (b := b) (d := d) existing indent l
  rw [hlines] at h
  obtain ⟨raw, hraw, rfl⟩ := List.mem_map.1 h
  rcases hresult with rfl | hsupplements
  · cases hraw
  · obtain ⟨rest, rfl⟩ := isSigned_of_supplements hsupplements raw hraw
    exact ⟨rest, rfl⟩

end Signed

end RubyDoc.Block
