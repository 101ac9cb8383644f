import RubyDoc.Proofs.Block.Documented
import RubyDoc.Proofs.Edit.PlanRun

/-!
# What a comment lacks

What joins the comment of a method is computed apart from its whole block: the result is left out
if the comment has one, and then nothing is inferred for it.  Still the two agree.  The lines that
join the comment are those tags of the block that no line of the comment mentions, in the order of
the block (`additions_unmentioned`).  A mention counts whatever type it gives, and no mention is
ever corrected.
-/

namespace RubyDoc.Block

open Text Comment Outline Signature Analysis Syntax Lookups Edit

/-- Does a line of the comment mention what the tag is about?  A parameter or an exception has to be
named, a result or a visibility only to be there. -/
inductive Mentions (existing : List Text) : Tag → Prop
  | visibility {v : Visibility} {line : Text} (hline : line ∈ existing)
      (h : holdsTag ["@private", "@protected"] line) : Mentions existing (.visibility v)
  | moduleFunction {name : Text} {copy : Visibility} {line : Text} (hline : line ∈ existing)
      (h : Text.contains line moduleFunctionNote) : Mentions existing (.moduleFunction name copy)
  | param {name type line : Text} (hline : line ∈ existing)
      (h : nameIn? "@param" line = some name) : Mentions existing (.param name type)
  | raised {error line : Text} (hline : line ∈ existing) (h : error ∈ raisedIn line) :
      Mentions existing (.raised error)
  | returned {type line : Text} (hline : line ∈ existing) (h : holdsTag ["@return"] line) :
      Mentions existing (.returned type)
  | returnedIf {type line : Text} {errors : List Text} (hline : line ∈ existing)
      (h : holdsTag ["@return"] line) : Mentions existing (.returnedIf type errors)

/-! ## What a comment mentions -/

theorem covers_iff_mentions {existing : List Text} {t : Tag} :
    (Existing.ofLines existing).covers t ↔ Mentions existing t := by
  constructor
  · intro h
    cases t with
    | visibility v =>
        obtain ⟨line, hline, h⟩ := List.any_eq_true.1 h
        exact .visibility hline h
    | moduleFunction name copy =>
        obtain ⟨line, hline, h⟩ := List.any_eq_true.1 h
        exact .moduleFunction hline h
    | param name type =>
        obtain ⟨line, hline, h⟩ := List.mem_filterMap.1 (List.contains_iff_mem.1 h)
        exact .param hline h
    | raised error =>
        obtain ⟨line, hline, h⟩ := List.mem_flatMap.1 (List.contains_iff_mem.1 h)
        exact .raised hline h
    | returned type =>
        obtain ⟨line, hline, h⟩ := List.any_eq_true.1 h
        exact .returned hline h
    | returnedIf type errors =>
        obtain ⟨line, hline, h⟩ := List.any_eq_true.1 h
        exact .returnedIf hline h
  · intro h
    cases h with
    | visibility hline h => exact List.any_eq_true.2 ⟨_, hline, h⟩
    | moduleFunction hline h => exact List.any_eq_true.2 ⟨_, hline, h⟩
    | param hline h => exact List.contains_iff_mem.2 (List.mem_filterMap.2 ⟨_, hline, h⟩)
    | raised hline h => exact List.contains_iff_mem.2 (List.mem_flatMap.2 ⟨_, hline, h⟩)
    | returned hline h => exact List.any_eq_true.2 ⟨_, hline, h⟩
    | returnedIf hline h => exact List.any_eq_true.2 ⟨_, hline, h⟩

instance (existing : List Text) : DecidablePred (Mentions existing) :=
  fun _ => decidable_of_iff _ covers_iff_mentions

theorem filter_uncovered (existing : List Text) (tags : List Tag) :
    tags.filter (fun t => !(Existing.ofLines existing).covers t) =
      tags.filter (¬ Mentions existing ·) := by
  refine List.filter_congr fun t _ => ?_
  cases hcovers : (Existing.ofLines existing).covers t with
  | true => simp [covers_iff_mentions.1 hcovers]
  | false =>
      have hnot : ¬ Mentions existing t := fun h => by
        rw [covers_iff_mentions.2 h] at hcovers
        cases hcovers
      simp [hnot]

/-! ## Both ways to the tags -/

section Tags

variable {s : Settings} {src : Source} {d : Definition} {f : Finding} {e : Existing}

/-- The tags that are missing are the tags of the whole block without those that are covered, though
results in the comment are not inferred again. -/
theorem missingTags_eq_filter {type : Text} {tags : List Tag}
    (htype : returnType s src d f = .ok type)
    (htags : tagsWith s src d f (returnTags s src d type) = .ok tags) (e : Existing) :
    missingTags s src d f e = .ok (tags.filter fun t => !e.covers t) := by
  cases hreturn : e.hasReturn with
  | false =>
      simp only [missingTags, hreturn, Bool.false_eq_true, if_false, htype]
      show (tagsWith s src d f (returnTags s src d type) >>= _) = _
      rw [htags]
      rfl
  | true =>
      -- A comment with a result covers all results, and they are not inferred again.
      obtain ⟨params, hparams, rfl⟩ := tagsWith_eq_ok htags
      have hresults : (returnTags s src d type).filter (fun t => !e.covers t) = [] := by
        rw [List.filter_eq_nil_iff]
        intro t ht
        rw [covers_of_mem_returnTags hreturn t ht]
        exact Bool.false_ne_true
      have hothers : tagsWith s src d f [] = .ok (visibilityTags s d ++ moduleFunctionTags d ++
          params ++ raisedTags s src d ++ []) := by
        rw [tagsWith, hparams]
        rfl
      simp only [missingTags, hreturn, if_true]
      show (tagsWith s src d f [] >>= _) = _
      rw [hothers, List.append_nil, List.filter_append, hresults, List.append_nil]
      rfl

end Tags

/-- **What joins a comment is what it does not mention.**  The block of a method whose signature can
be read is its heading and description with the tags below.  What joins a comment are those of the
tags that it does not mention, set off by a blank line unless it ends with one; nothing joins a
comment that mentions all of them. -/
theorem additions_unmentioned {b : Builder} {d : Definition} {copy : Option Visibility}
    (hrole : d.role = .method copy) {l m : Lookups}
    (hread : (Lookups.find b.provider (keyOf d) l).1.Readable)
    (hsame : (Lookups.find b.provider (keyOf d) m).1 = (Lookups.find b.provider (keyOf d) l).1) :
    ∃ type tags,
      returnType b.settings b.source d (Lookups.find b.provider (keyOf d) l).1 = .ok type ∧
      tagsWith b.settings b.source d (Lookups.find b.provider (keyOf d) l).1
        (returnTags b.settings b.source d type) = .ok tags ∧
      ∀ indent,
        ((b.block d indent).run l).1 =
          (if tags = [] then
            Builder.dropBlankEnd (headingLines b.settings d type ++ descriptionLines b.settings d)
          else headingLines b.settings d type ++ descriptionLines b.settings d ++
            tags.map Tag.line).map (indent ++ ·) ∧
        ∀ existing, ((b.additions d existing indent).run m).1 =
          let kept := tags.filter (¬ Mentions existing ·)
          if kept = [] then []
          else ((if existing.getLast?.any isEmptyComment then [] else [blank]) ++
            kept.map Tag.line).map (indent ++ ·) := by
  obtain ⟨type, tags, htype, htags, hblock⟩ := run_block_of_method hrole hread
  refine ⟨type, tags, htype, htags, fun indent => ⟨hblock indent, fun existing => ?_⟩⟩
  rw [Builder.run_additions_of_method hrole, hsame, missingTags_eq_filter htype htags,
    filter_uncovered]
  show (joining (.ofLines existing) _).map (indent ++ ·) = _
  cases hkept : tags.filter (¬ Mentions existing ·) with
  | nil => rfl
  | cons t kept =>
      rw [joining, if_neg (List.cons_ne_nil t kept)]
      show (if existing.getLast?.any isEmptyComment then (_ : List Text) else _).map _ = _
      split
      · rfl
      · rfl

/-- A comment names the parameter, so the other tags join it. -/
theorem additions_unmentioned_guarded :
    guardedMethod.role = .method (some .priv) ∧
      (Lookups.find guardedGo.provider (keyOf guardedMethod) {}).1.Readable ∧
      ((guardedGo.additions guardedMethod ["  # @param size Room."] "  ").run {}).1 = [
        "  #", "  # @private",
        "  # @note module_function: when included, also defines #go (instance visibility: private)",
        "  # @raise [Full]", "  # @return [Object]"] := by
  have hrole : guardedMethod.role = .method (some .priv) := rfl
  have hread : (Lookups.find guardedGo.provider (keyOf guardedMethod) {}).1.Readable :=
    readable_nothing
  refine ⟨hrole, hread, ?_⟩
  obtain ⟨type, tags, htype, htags, hboth⟩ := additions_unmentioned hrole hread rfl
  obtain rfl : type = "Object" := (Except.ok.inj htype).symm
  obtain rfl : tags = guardedTags := (Except.ok.inj htags).symm
  rw [(hboth "  ").2]
  decide +kernel

end RubyDoc.Block
