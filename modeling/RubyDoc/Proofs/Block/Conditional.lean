import RubyDoc.Proofs.Analysis.Search
import RubyDoc.Proofs.Block.Documented
import RubyDoc.Proofs.Edit.PlanRun

/-!
# Results under a condition

Two analyses look for rescue clauses.  The results of a method go by the statements of its body, or
by the one rescue modifier in it, while the exceptions come from a search of the whole tree that
leaves out the name of the method.  The search reaches every statement (`reaches_statement`), so an
exception for which there is a result of its own is one of the method's exceptions.  In a block the
exceptions come above the results, hence each exception that a conditional result mentions is
documented above it: `conditional_results_are_raised`.
-/

namespace RubyDoc.Analysis

open RubyDoc.Syntax Node

/-- Is the body of the method, if it has one, a named child, and another one than the name? -/
def HasNamedBody (method : Node) : Prop :=
  ∀ body, method.body? = some body → body.isNamed ∧ body.field ≠ some .name

section Statements

variable {s : Source} {n c : Node}

theorem isWordOf_method (hmethod : n.kind = .method ∨ n.kind = .singletonMethod) :
    isWordOf n = fun c => decide (c.field = some .name) := by
  funext c
  rcases hmethod with h | h <;> rw [isWordOf, h]

theorem searchedAfter_method (hmethod : n.kind = .method ∨ n.kind = .singletonMethod) :
    searchedAfter n = (n.children.eraseP fun c => c.field = some .name).filter isNamed := by
  have hmodifier : n.kind ≠ .rescueModifier := by
    rintro h
    rcases hmethod with hkind | hkind <;> rw [hkind] at h <;> cases h
  rw [searchedAfter, if_neg hmodifier, searchedChildren, isWordOf_method hmethod]

/-- The search of a method comes to each statement of its body. -/
theorem reaches_statement (hmethod : n.kind = .method ∨ n.kind = .singletonMethod)
    (hbody : HasNamedBody n) (h : c ∈ n.statements) : Reaches n c := by
  have hchild : ∀ {d : Node}, d ∈ n.children.eraseP (fun c => c.field = some .name) → d.isNamed →
      d ∈ searchedBefore n ++ searchedAfter n := fun hd hnamed =>
    List.mem_append_right _ (searchedAfter_method hmethod ▸ List.mem_filter.2 ⟨hd, hnamed⟩)
  have hprogram : n.kind ≠ .program := by
    rintro h
    rcases hmethod with hkind | hkind <;> rw [hkind] at h <;> cases h
  rw [statements, if_neg hprogram] at h
  cases hfound : n.body? with
  | none =>
      rw [hfound] at h
      obtain ⟨hc, hcode⟩ := List.mem_filter.1 h
      exact .single (hchild (mem_eraseP_of_mem_unclaimed (by decide) hc) (isNamed_of_isCode hcode))
  | some b =>
      rw [hfound] at h
      obtain ⟨hnamed, hname⟩ := hbody b hfound
      have hb : b ∈ searchedBefore n ++ searchedAfter n :=
        hchild ((List.mem_eraseP_of_neg (by simpa using hname)).2 (mem_children_of_body? hfound))
          hnamed
      dsimp only at h
      split at h
      · rename_i hkind
        obtain ⟨hc, hcode⟩ := List.mem_filter.1 h
        have hsearched : searchedAfter b = b.namedChildren := by
          rw [searchedAfter, if_neg (by simp [hkind]),
            searchedChildren_of_forall_not fun c => by rw [isWordOf, hkind]]
        exact .tail (.single hb) (List.mem_append_right _
          (hsearched ▸ List.mem_filter.2 ⟨hc, isNamed_of_isCode hcode⟩))
      · obtain rfl := List.mem_singleton.1 h
        exact .single hb

/-- A result of its own is for exceptions that a statement names. -/
theorem exists_statement_of_branch {style : ResultStyle} {branch : List Text × Text}
    (h : branch ∈ (returnSpec s style n).branches) {error : Text} (herror : error ∈ branch.1) :
    ∃ c ∈ n.statements, error ∈ ownErrors s c := by
  unfold returnSpec at h
  dsimp only at h
  split at h
  · rename_i only hclauses honly
    split at h
    · rename_i hmodifier
      obtain rfl := List.mem_singleton.1 h
      refine ⟨only, List.mem_of_mem_filter (honly ▸ List.mem_cons_self), ?_⟩
      rw [ownErrors, hmodifier]
      exact herror
    · cases h
  · cases h
  · obtain ⟨clause, hclause, rfl⟩ := List.mem_map.1 h
    obtain ⟨hc, hkind⟩ := List.mem_filter.1 hclause
    refine ⟨clause, hc, ?_⟩
    rw [ownErrors, of_decide_eq_true hkind]
    exact herror

/-- **The exceptions for which a method has results of their own are exceptions of the method.** -/
theorem mem_raisedTypes_of_branch (hmethod : n.kind = .method ∨ n.kind = .singletonMethod)
    (hbody : HasNamedBody n) {style : ResultStyle} {branch : List Text × Text}
    (h : branch ∈ (returnSpec s style n).branches) {error : Text} (herror : error ∈ branch.1) :
    error ∈ raisedTypes s n := by
  obtain ⟨c, hc, hown⟩ := exists_statement_of_branch h herror
  exact (mem_raisedTypes s).2 ⟨c, reaches_statement hmethod hbody hc, hown⟩

end Statements

end RubyDoc.Analysis

namespace RubyDoc.Block

open Syntax Analysis Outline Signature Edit

/-- Does each exception that a conditional result mentions have a tag above it? -/
def RaisedAbove (tags : List Tag) : Prop :=
  ∀ above type errors below, tags = above ++ .returnedIf type errors :: below →
    ∀ error ∈ errors, Tag.raised error ∈ above

section Tags

variable {s : Settings} {src : Source} {d : Definition} {f : Finding} {type : Text}
  {tags : List Tag}

/-- The conditional tags are those of the results of their own, and they stand at the end, below a
tag for every exception. -/
theorem exists_front (hraise : s.emit.raiseTags)
    (htags : tagsWith s src d f (returnTags s src d type) = .ok tags) :
    ∃ front, tags = front ++ returnTags s src d type ∧
      (∀ result errors, Tag.returnedIf result errors ∉ front) ∧
      ∀ error ∈ raisedTypes src d.node, Tag.raised error ∈ front := by
  obtain ⟨params, hparams, rfl⟩ := tagsWith_eq_ok htags
  refine ⟨_, rfl, fun result errors h => ?_, fun error herror => ?_⟩
  · simp only [List.mem_append] at h
    rcases h with ((h | h) | h) | h
    · rw [visibilityTags, List.mem_ite_nil_right, List.mem_singleton] at h
      cases h.2
    · rw [moduleFunctionTags, Option.mem_toList, Option.map_eq_some_iff] at h
      obtain ⟨copy, -, h⟩ := h
      cases h
    · obtain ⟨-, p, -, htag⟩ := (paramTags_eq_ok hparams).2 _ h
      obtain ⟨type, h⟩ := paramTag_eq_ok htag
      cases h
    · rw [raisedTags, List.mem_ite_nil_right, List.mem_map] at h
      obtain ⟨-, error, -, h⟩ := h
      cases h
  · refine List.mem_append_right _ ?_
    rw [raisedTags, if_pos hraise]
    exact List.mem_map_of_mem herror

theorem returnedIf_mem_returnTags (hresults : s.emit.rescueReturns) {result : Text}
    {errors : List Text} : Tag.returnedIf result errors ∈ returnTags s src d type ↔
      (errors, result) ∈ (inferredReturns s src d).branches := by
  rw [returnTags, if_pos hresults, List.mem_append, List.mem_ite_nil_right, List.mem_singleton,
    List.mem_map]
  constructor
  · rintro (⟨-, h⟩ | ⟨branch, hbranch, h⟩)
    · cases h
    · cases h
      exact hbranch
  · exact fun h => Or.inr ⟨_, h, rfl⟩

/-- Conditional results come below a tag for each exception that they mention. -/
theorem raisedAbove_of_tagsWith
    (hmethod : d.node.kind = .method ∨ d.node.kind = .singletonMethod)
    (hbody : HasNamedBody d.node) (hraise : s.emit.raiseTags) (hresults : s.emit.rescueReturns)
    (htags : tagsWith s src d f (returnTags s src d type) = .ok tags) : RaisedAbove tags := by
  obtain ⟨front, rfl, hfront, hraised⟩ := exists_front hraise htags
  intro above result errors below hsplit error herror
  -- The tag stands in the results, so everything in front of these is above it.
  have habove : ∃ more, above = front ++ more ∧
      returnTags s src d type = more ++ .returnedIf result errors :: below := by
    rcases List.append_eq_append_iff.1 hsplit with ⟨more, rfl, hmore⟩ | ⟨more, rfl, hmore⟩
    · exact ⟨more, rfl, hmore⟩
    · cases more with
      | nil => exact ⟨[], by simp, hmore.symm⟩
      | cons t more =>
          obtain ⟨rfl, -⟩ := List.cons.inj hmore
          exact absurd (List.mem_append_right _ List.mem_cons_self) (hfront result errors)
  obtain ⟨more, rfl, hmore⟩ := habove
  have hbranch : (errors, result) ∈ (inferredReturns s src d).branches :=
    (returnedIf_mem_returnTags hresults).1
      (hmore ▸ List.mem_append_right _ List.mem_cons_self)
  exact List.mem_append_left _ (hraised _ (mem_raisedTypes_of_branch hmethod hbody hbranch herror))

theorem returnedIf_mem_tags (hraise : s.emit.raiseTags) (hresults : s.emit.rescueReturns)
    (htags : tagsWith s src d f (returnTags s src d type) = .ok tags) {result : Text}
    {errors : List Text} : Tag.returnedIf result errors ∈ tags ↔
      (errors, result) ∈ (inferredReturns s src d).branches := by
  obtain ⟨front, rfl, hfront, -⟩ := exists_front hraise htags
  rw [List.mem_append, or_iff_right (hfront result errors), returnedIf_mem_returnTags hresults]

end Tags

/-- Of what stands above the tags only an end may be missing. -/
theorem exists_prefix_of_dropBlankEnd (head : List Text) (tags : List Tag) :
    ∃ front, Builder.dropBlankEnd (head ++ tags.map Tag.line) = front ++ tags.map Tag.line ∧
      front <+: head := by
  rw [dropBlankEnd_append_tagLines]
  split
  · rename_i hnil
    refine ⟨Builder.dropBlankEnd head, by rw [hnil, List.map_nil, List.append_nil], ?_⟩
    rw [← List.reverse_suffix, Builder.dropBlankEnd, List.reverse_reverse]
    exact List.dropWhile_suffix _
  · exact ⟨head, rfl, List.prefix_rfl⟩

theorem block_result (b : Builder) (d : Definition) (indent : Text) (l : Lookups) :
    ((b.block d indent).run l).1 = [] ∨ ∃ lines,
      Drafts b d (Lookups.find b.provider (keyOf d) l).1 lines ∧
        ((b.block d indent).run l).1 = (Builder.dropBlankEnd lines).map (indent ++ ·) := by
  have hblock : ((b.block d indent).run l).1 =
      (Builder.dropBlankEnd ((b.rawBlock d).run l).1).map (indent ++ ·) := rfl
  rcases Builder.rawBlock_result (b := b) (d := d) l with hnil | hdrafts
  · rw [hblock, hnil]
    exact Or.inl rfl
  · exact Or.inr ⟨_, hdrafts, hblock⟩

/-- No line of an attribute's block is one of a conditional result. -/
theorem attributeLine_ne {s : Settings} {d : Definition} {access : Access}
    {readType writeType line : Text} (h : line ∈ attributeLines s d access readType writeType)
    (result : Text) (errors : List Text) : line ≠ (Tag.returnedIf result errors).line := by
  rintro rfl
  simp only [attributeLines, List.mem_append, List.mem_singleton, List.mem_ite_nil_right] at h
  rcases h with ((h | ⟨-, h⟩) | ⟨-, h⟩) | ⟨-, h⟩
  · have hfourth : some (Sym.char 'r') = some (Sym.char '!') := congrArg (fun t => t[3]?) h
    exact absurd hfourth (by decide)
  all_goals
    have hthird : some (Sym.char '@') = some (Sym.char ' ') := congrArg (fun t => t[2]?) h
    exact absurd hthird (by decide)

/-- **Every conditional result mentions documented exceptions.**  An exception for which a method
has a result of its own is one of its exceptions.  So if both get tags, the block of a method is
empty, or it has tags below heading and description, the conditional ones among them are those of
the results of their own, and every exception that one of these mentions has its own tag above it.
No line of an attribute's block is one of a conditional result. -/
theorem conditional_results_are_raised :
    (∀ (s : Source) (style : ResultStyle) (n : Node),
      (n.kind = .method ∨ n.kind = .singletonMethod) → HasNamedBody n →
        ∀ branch ∈ (returnSpec s style n).branches, ∀ error ∈ branch.1,
          error ∈ raisedTypes s n) ∧
      ∀ (b : Builder) (d : Definition) (indent : Text) (l : Lookups),
        b.settings.emit.raiseTags → b.settings.emit.rescueReturns →
          (∀ copy, d.role = .method copy →
            (d.node.kind = .method ∨ d.node.kind = .singletonMethod) → HasNamedBody d.node →
              ((b.block d indent).run l).1 = [] ∨ ∃ type front tags,
                ((b.block d indent).run l).1 =
                  (front ++ tags.map Tag.line).map (indent ++ ·) ∧
                front <+: headingLines b.settings d type ++ descriptionLines b.settings d ∧
                (∀ result errors, .returnedIf result errors ∈ tags ↔
                  (errors, result) ∈ (inferredReturns b.settings b.source d).branches) ∧
                RaisedAbove tags) ∧
          ∀ access, d.role = .attribute access → ∀ line ∈ ((b.block d indent).run l).1,
            ∀ result errors, line ≠ indent ++ (Tag.returnedIf result errors).line := by
  refine ⟨fun s style n hmethod hbody branch hbranch error herror =>
    mem_raisedTypes_of_branch hmethod hbody hbranch herror,
    fun b d indent l hraise hresults => ⟨fun copy hrole hmethod hbody => ?_,
      fun access hrole line hline result errors => ?_⟩⟩
  · rcases block_result b d indent l with hnil | ⟨lines, hdrafts, hblock⟩
    · exact Or.inl hnil
    · cases hdrafts with
      | ofAttribute hattribute =>
          rw [hattribute] at hrole
          cases hrole
      | ofMethod _ hlines =>
          obtain ⟨type, tags, -, htags, rfl⟩ := methodLines_eq_ok hlines
          obtain ⟨front, hfront, hprefix⟩ := exists_prefix_of_dropBlankEnd
            (headingLines b.settings d type ++ descriptionLines b.settings d) tags
          exact Or.inr ⟨type, front, tags, hfront ▸ hblock, hprefix,
            fun _ _ => returnedIf_mem_tags hraise hresults htags,
            raisedAbove_of_tagsWith hmethod hbody hraise hresults htags⟩
  · rcases block_result b d indent l with hnil | ⟨lines, hdrafts, hblock⟩
    · rw [hnil] at hline
      cases hline
    · rw [hblock] at hline
      obtain ⟨raw, hraw, rfl⟩ := List.mem_map.1 hline
      have hmem := mem_of_mem_dropBlankEnd hraw
      cases hdrafts with
      | ofMethod hmethod _ =>
          rw [hmethod] at hrole
          cases hrole
      | ofAttribute _ readType writeType =>
          exact fun heq => attributeLine_ne hmem result errors (List.append_cancel_left heq)

/-- A method `go` with a result of its own for an exception. -/
def rescuingGo : Builder :=
  plainBuilder "def go\n  1\nrescue KeyError\n  nil\nend\n"

/-- The method. -/
def rescuingMethod : Definition :=
  { bareMethod "go" 0 with
    node := ⟨.method, none, 0, 36, 0, true, false, false,
      [⟨.identifier, some .name, 4, 6, 0, true, false, false, []⟩,
        ⟨.body, some .body, 9, 32, 1, true, false, false,
          [⟨.literal .integer, none, 9, 10, 1, true, false, false, []⟩,
            ⟨.rescue, none, 11, 32, 2, true, false, false,
              [⟨.other "exceptions", some .exceptions, 18, 26, 2, true, false, false,
                  [⟨.constant, none, 18, 26, 2, true, false, false, []⟩]⟩,
                ⟨.thenBody, some .body, 26, 32, 2, true, false, false,
                  [⟨.literal .nil, none, 29, 32, 3, true, false, false, []⟩]⟩]⟩]⟩]⟩ }

/-- The exception of the conditional result has its tag above it. -/
theorem conditional_results_are_raised_rescue :
    HasNamedBody rescuingMethod.node ∧
      Text.ofString "KeyError" ∈ raisedTypes rescuingGo.source rescuingMethod.node ∧
      ((rescuingGo.block rescuingMethod "").run {}).1 = [
        "# +Object#go+ -> Integer", "#", "# Method documentation.", "#", "# @raise [KeyError]",
        "# @return [Integer]", "# @return [nil] if KeyError"] ∧
      ∃ front tags, ((rescuingGo.block rescuingMethod "").run {}).1 =
        (front ++ tags.map Tag.line).map (Text.ofString "" ++ ·) ∧ RaisedAbove tags := by
  have hbody : HasNamedBody rescuingMethod.node := by
    intro body h
    obtain rfl := Option.some.inj h
    exact ⟨rfl, by decide⟩
  have hbranch : ([Text.ofString "KeyError"], Text.ofString "nil") ∈
      (returnSpec rescuingGo.source {} rescuingMethod.node).branches := by decide +kernel
  have hblock : ((rescuingGo.block rescuingMethod "").run {}).1 = [
      "# +Object#go+ -> Integer", "#", "# Method documentation.", "#", "# @raise [KeyError]",
      "# @return [Integer]", "# @return [nil] if KeyError"] := by decide +kernel
  obtain ⟨hraised, hblocks⟩ := conditional_results_are_raised
  refine ⟨hbody, hraised _ {} _ (Or.inl rfl) hbody _ hbranch _ List.mem_cons_self, hblock, ?_⟩
  obtain ⟨type, front, tags, hlines, -, -, habove⟩ :=
    ((hblocks rescuingGo rescuingMethod "" {} rfl rfl).1 none rfl (Or.inl rfl) hbody).resolve_left
      (by rw [hblock]; exact List.cons_ne_nil _ _)
  exact ⟨front, tags, hlines, habove⟩

end RubyDoc.Block
