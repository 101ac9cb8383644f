import RubyDoc.Proofs.Outline.Entry
import RubyDoc.Proofs.Signature.Index

/-!
# Containers by the same name

The walk of a Ruby file and the reader of a signature file put the path of a container together from
the same segments, each in its own way: the walk keeps the anchor of an anchored segment, the reader
takes it off.  Up to the anchor, which is dropped when a signature is looked up, the two agree at
any depth (`samePath_foldl`).  So a definition is looked up under the key under which a declaration
in the same containers is indexed (`looked_up_as_indexed`).
-/

namespace RubyDoc.Signature

open Outline Analysis Syntax Text

/-- Does the text begin with a name, and not with a colon? -/
def StartsName (t : Text) : Prop :=
  ∃ s rest, t = s :: rest ∧ s ≠ .char ':'

/-- The text without its anchor. -/
def unanchored (t : Text) : Text :=
  (after? "::" t).getD t

/-- Is the text a segment of a container's path: a path of constants, perhaps anchored? -/
def IsSegment (t : Text) : Prop :=
  StartsName (unanchored t)

theorem StartsName.ne_nil {t : Text} (h : StartsName t) : t ≠ [] := by
  rintro rfl
  obtain ⟨s, rest, heq, -⟩ := h
  cases heq

theorem StartsName.append {t : Text} (h : StartsName t) (more : Text) : StartsName (t ++ more) := by
  obtain ⟨s, rest, rfl, hs⟩ := h
  exact ⟨s, rest ++ more, rfl, hs⟩

theorem unanchored_of_none {t : Text} (h : after? "::" t = none) : unanchored t = t := by
  rw [unanchored, h, Option.getD_none]

theorem StartsName.unanchored_eq {t : Text} (h : StartsName t) : unanchored t = t := by
  obtain ⟨s, rest, rfl, hs⟩ := h
  have hhead : (s :: rest).head? ≠ some (.char ':') := fun h => hs (Option.some.inj h)
  exact unanchored_of_none (after?_eq_none_of_head hhead _)

/-- The anchor comes off a path in the same way, whatever follows. -/
theorem unanchored_append {path : Text} (h : StartsName (unanchored path)) (more : Text) :
    unanchored (path ++ more) = unanchored path ++ more := by
  cases hafter : after? "::" path with
  | some rest =>
      rw [unanchored, after?_append_right hafter, unanchored, hafter]
      rfl
  | none =>
      rw [unanchored_of_none hafter] at h ⊢
      exact (h.append more).unanchored_eq

/-! ## Paths in paths -/

/-- Is `indexed` the path that the walk calls `walked`, without its anchor? -/
structure SamePath (walked indexed : Text) : Prop where
  eq : indexed = unanchored walked
  starts : StartsName indexed

namespace SamePath

variable {walked indexed segment : Text}

theorem walked_ne_nil (h : SamePath walked indexed) : walked ≠ [] := by
  rintro rfl
  exact h.starts.ne_nil h.eq

/-- The outermost container. -/
theorem first (hsegment : IsSegment segment) :
    SamePath (joinContainer [] segment) (Reader.enterPath [] segment) := by
  have henter : Reader.enterPath [] segment = unanchored segment := by
    rw [Reader.enterPath, unanchored]
    cases after? "::" segment <;> rfl
  rw [joinContainer, List.isEmpty_nil, Bool.true_or, if_pos rfl, henter]
  exact ⟨rfl, hsegment⟩

/-- One container further in. -/
theorem enter (h : SamePath walked indexed) (hsegment : IsSegment segment) :
    SamePath (joinContainer walked segment) (Reader.enterPath indexed segment) := by
  have hwalked : walked.isEmpty = false := List.isEmpty_eq_false_iff.2 h.walked_ne_nil
  have hindexed : indexed.isEmpty = false := List.isEmpty_eq_false_iff.2 h.starts.ne_nil
  cases hafter : after? "::" segment with
  | some rest =>
      -- The segment is anchored, so both begin anew.
      have hanchored : segment.startsWith pathSeparator :=
        startsWith_iff.2 ⟨rest, after?_eq_some_iff.1 hafter⟩
      have hrest : unanchored segment = rest := by rw [unanchored, hafter, Option.getD_some]
      have henter : Reader.enterPath indexed segment = rest := by rw [Reader.enterPath, hafter]
      rw [joinContainer, hanchored, Bool.or_true, if_pos rfl, henter]
      exact ⟨hrest.symm, hrest ▸ hsegment⟩
  | none =>
      have hplain : segment.startsWith pathSeparator = false := by
        rw [Bool.eq_false_iff]
        intro hanchored
        obtain ⟨rest, rfl⟩ := startsWith_iff.1 hanchored
        rw [pathSeparator, after?_append] at hafter
        cases hafter
      have henter : Reader.enterPath indexed segment = indexed ++ ("::" ++ segment) := by
        rw [Reader.enterPath, hafter]
        simp only [hindexed, if_neg Bool.false_ne_true, List.append_assoc]
      rw [joinContainer, hwalked, hplain, Bool.or_false, if_neg Bool.false_ne_true, henter,
        List.append_assoc]
      obtain ⟨rfl, hstarts⟩ := h
      exact ⟨(unanchored_append hstarts _).symm, hstarts.append _⟩

theorem foldl (h : SamePath walked indexed) {segments : List Text}
    (hsegments : ∀ s ∈ segments, IsSegment s) :
    SamePath (segments.foldl joinContainer walked) (segments.foldl Reader.enterPath indexed) := by
  induction segments generalizing walked indexed with
  | nil => exact h
  | cons segment segments ih =>
      obtain ⟨hsegment, hsegments⟩ := List.forall_mem_cons.1 hsegments
      exact ih (h.enter hsegment) hsegments

end SamePath

/-- The walk and the reader come to the same container. -/
theorem samePath_foldl {segments : List Text} (hne : segments ≠ [])
    (h : ∀ s ∈ segments, IsSegment s) :
    SamePath (segments.foldl joinContainer []) (segments.foldl Reader.enterPath []) := by
  cases segments with
  | nil => exact absurd rfl hne
  | cons segment segments =>
      obtain ⟨hsegment, hsegments⟩ := List.forall_mem_cons.1 h
      exact (SamePath.first hsegment).foldl hsegments

/-! ## Definitions and declarations -/

section Containers

variable {segments : List Text}

theorem unanchored_foldl (hne : segments ≠ []) (h : ∀ s ∈ segments, IsSegment s) :
    unanchored (segments.foldl joinContainer []) = Reader.containerOf segments := by
  have hsame := samePath_foldl hne h
  have hpath : (segments.foldl Reader.enterPath []).isEmpty = false :=
    List.isEmpty_eq_false_iff.2 hsame.starts.ne_nil
  rw [← hsame.eq, Reader.containerOf, hpath]
  rfl

theorem indexedContainer_foldl (h : ∀ s ∈ segments, IsSegment s) :
    Index.indexedContainer (segments.foldl joinContainer []) = Reader.containerOf segments := by
  by_cases hne : segments = []
  · subst hne
    rfl
  · have hsame := samePath_foldl hne h
    have hpath : (unanchored (segments.foldl joinContainer [])).isEmpty = false :=
      List.isEmpty_eq_false_iff.2 (hsame.eq ▸ hsame.starts.ne_nil)
    rw [← unanchored_foldl hne h]
    show (if (unanchored _).isEmpty then Index.topContainer else unanchored _) = _
    rw [hpath]
    rfl

/-- A definition in containers with these segments is asked for under the container that blocks with
these names make up. -/
theorem indexedContainer_within (h : ∀ s ∈ segments, IsSegment s) :
    Index.indexedContainer (Outline.containerOf (within none segments)) =
      Reader.containerOf segments := by
  by_cases hne : segments = []
  · subst hne
    decide
  · rw [within_of_ne_nil hne, Outline.containerOf, Option.getD_some, Option.getD_none,
      indexedContainer_foldl h]

end Containers

/-- **A definition is looked up under the key under which its declaration is indexed.**  Joining
segments as the walk does, and dropping the anchor, gives the container of open blocks with the same
names; outside all containers both give `Object`.  So whatever stands in containers with these
segments, anywhere in an outline, is found as a definition for which a lookup comes to the key of a
member with the same blocks around it: the signature that the reader adds there is found, unless
there was an earlier one. -/
theorem looked_up_as_indexed {segments : List Text} (h : ∀ s ∈ segments, IsSegment s) :
    (segments ≠ [] →
        unanchored (segments.foldl joinContainer []) = Reader.containerOf segments) ∧
      (segments = [] → Index.indexedContainer (segments.foldl joinContainer []) = "Object" ∧
        Reader.containerOf segments = "Object") ∧
      ∀ (outline : List Item) (item : Item) (e : Entry), StandsWithin item segments outline →
        e ∈ item.ownEntries → ∃ d ∈ definitionsOf outline, d.entry = e ∧
          ∀ r : Reader, r.blocks.reverse.map Block.name = segments → ∀ scope name,
            (∀ index : Index, index.find? ⟨d.container, scope, name⟩ =
              index.lookup ⟨r.container, scope, name⟩) ∧
            ∀ sig, (r.addMember scope name sig).index.find? ⟨d.container, scope, name⟩ =
              some ((r.index.find? ⟨d.container, scope, name⟩).getD sig) := by
  refine ⟨fun hne => unanchored_foldl hne h, ?_, ?_⟩
  · rintro rfl
    exact ⟨rfl, rfl⟩
  · intro outline item e hitem he
    obtain ⟨d, hd, hentry, hcontainer⟩ := exists_definition_of_standsWithin hitem he
    refine ⟨d, hd, hentry, fun r hr scope name => ?_⟩
    have hkey : ∀ index : Index, index.find? ⟨d.container, scope, name⟩ =
        index.lookup ⟨r.container, scope, name⟩ := by
      intro index
      rw [Index.find?, hcontainer, indexedContainer_within h, Reader.container, hr]
    refine ⟨hkey, fun sig => ?_⟩
    have hadded := Index.lookup_add r.index (⟨r.container, scope, name⟩, sig)
      ⟨r.container, scope, name⟩
    rw [List.lookup_cons_self] at hadded
    rw [hkey, hkey]
    refine hadded.trans ?_
    cases r.index.lookup ⟨r.container, scope, name⟩ <;> rfl

/-- A method in a class in an anchored module, which stands in another module. -/
def rateMethod : Item :=
  .method ⟨.method, none, 45, 55, 3, true, false, false, []⟩ "go"

/-- The outline of its file. -/
def rateOutline : List Item :=
  [.container "Billing" [.container "::Tax" [.container "Rate" [rateMethod]]]]

/-- The reader of a signature file with the same blocks open. -/
def rateReader : Reader where
  index := []
  blocks := [⟨.class_, "Rate"⟩, ⟨.module, "::Tax"⟩, ⟨.module, "Billing"⟩]

/-- The method is found in the container with the anchor, and its signature under the container
without it. -/
theorem looked_up_as_indexed_rate :
    rateReader.container = "Tax::Rate" ∧
      ∃ d ∈ definitionsOf rateOutline, d.container = "::Tax::Rate" ∧ d.name = "go" ∧
        ∀ sig, (rateReader.addMember .onInstance "go" sig).index.find?
          ⟨d.container, .onInstance, d.name⟩ = some sig := by
  have hsegments : ∀ s ∈ ["Billing", "::Tax", "Rate"].map Text.ofString, IsSegment s := by
    intro s hs
    simp only [List.map_cons, List.map_nil, List.mem_cons, List.not_mem_nil, or_false] at hs
    rcases hs with rfl | rfl | rfl
    · exact ⟨.char 'B', "illing", rfl, by decide⟩
    · exact ⟨.char 'T', "ax", rfl, by decide⟩
    · exact ⟨.char 'R', "ate", rfl, by decide⟩
  have hstands : StandsWithin rateMethod (["Billing", "::Tax", "Rate"].map Text.ofString)
      rateOutline :=
    .container (List.mem_singleton_self _) <| .container (List.mem_singleton_self _) <|
      .container (List.mem_singleton_self _) <| .here (List.mem_singleton_self _)
  obtain ⟨-, -, h⟩ := looked_up_as_indexed hsegments
  obtain ⟨d, hd, hentry, hfound⟩ := h rateOutline rateMethod _ hstands (List.mem_singleton_self _)
  have hname : d.name = "go" := congrArg Entry.name hentry
  have hcontainer : d.container = "::Tax::Rate" := by
    obtain rfl := List.mem_singleton.1 hd
    decide
  refine ⟨by decide, d, hd, hcontainer, hname, fun sig => ?_⟩
  rw [hname]
  exact (hfound rateReader rfl .onInstance "go").2 sig

end RubyDoc.Signature
