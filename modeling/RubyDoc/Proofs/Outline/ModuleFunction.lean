import RubyDoc.Proofs.Outline.Mention
import RubyDoc.Proofs.Outline.Plain
import RubyDoc.Proofs.Outline.Resolution

/-!
# Making a function of the module, before and after the definition

A call that makes a function of a method may stand before the method or after it.  Before it, the
method is recorded as a public function of the module; after it, the record is changed to one.
`record_either_side` says when this is the same: the scope, and the visibility of the copy that is
left to including classes, always are, but a method below a bare `protected` stays protected when
the call comes after it (`record_after_protected`).
-/

namespace RubyDoc.Outline

open Syntax

variable {s : Source} {path : Option Text} {name : Text}

/-! ## The call -/

/-- Does the statement make a function of the method `name`, and do nothing else? -/
def CallsFor (s : Source) (name : Text) (call : Node) : Prop :=
  directive? s call = some .moduleFunction ∧
    ∃ a, call.arguments = [a] ∧ a.kind ≠ .method ∧ s.symbolName? a = some name

theorem argument?_of_symbolName? {a : Node} (hmethod : a.kind ≠ .method)
    (h : s.symbolName? a = some name) : argument? s a = some (.named name) := by
  have hnot : ∀ k : Kind, a.kind = k → k ≠ .singletonMethod ∧ k ≠ .call := by
    rintro k hk
    constructor <;> rintro rfl <;> rw [Source.symbolName?, hk] at h <;> cases h
  rw [argument?_other s hmethod (hnot _ rfl).1 fun access haccess =>
    (hnot _ rfl).2 (kind_of_attribute s haccess), h]
  rfl

theorem CallsFor.deedsOf {call : Node} (h : CallsFor s name call) :
    deedsOf s call = [.function name, .promote name] := by
  obtain ⟨hdirective, a, harguments, hmethod, hname⟩ := h
  rw [deedsOf_moduleFunction s hdirective, harguments]
  simp [argument?_of_symbolName? hmethod hname, Argument.functionDeeds]

/-! ## What stands beside a method -/

namespace Argument

theorem beside_of_mem_visibilityDeeds {a : Argument} {v : Visibility} {x : Deed}
    (hx : x ∈ a.visibilityDeeds v) :
    x.IsLeaf ∧ (∀ m v, x ≠ .setClassVisibility m v) ∧ ∀ m, x ≠ .promote m := by
  cases a <;> simp only [visibilityDeeds, List.mem_cons, List.mem_append, List.mem_map,
    List.not_mem_nil, or_false] at hx
  · rcases hx with rfl | rfl <;> exact ⟨trivial, by simp, by simp⟩
  · rcases hx with rfl | rfl <;> exact ⟨trivial, by simp, by simp⟩
  · rcases hx with ⟨_, -, rfl⟩ | rfl <;> exact ⟨trivial, by simp, by simp⟩
  · subst hx
    exact ⟨trivial, by simp, by simp⟩

theorem beside_of_mem_functionDeeds {a : Argument} {x : Deed} (hx : x ∈ a.functionDeeds) :
    x.IsLeaf ∧ (∀ m v, x ≠ .setClassVisibility m v) ∧
      ∀ m, x = .promote m → .function m ∈ a.functionDeeds := by
  cases a <;> simp only [functionDeeds, List.mem_cons, List.not_mem_nil, or_false] at hx ⊢
  · rcases hx with rfl | rfl <;> exact ⟨trivial, by simp, by simp⟩
  · rcases hx with rfl | rfl
    · exact ⟨trivial, by simp, by simp⟩
    · refine ⟨trivial, by simp, fun m hm => .inl ?_⟩
      rw [Deed.promote.inj hm]

end Argument

/-- The deeds of a statement that defines a method walk no body and change the visibility of no
class method; they go back to an earlier method only in a call that names it. -/
theorem beside_method {statement d : Node} {x : Deed} (hd : .method d name ∈ deedsOf s statement)
    (hx : x ∈ deedsOf s statement) :
    x.IsLeaf ∧ (∀ m v, x ≠ .setClassVisibility m v) ∧
      ∀ m, x = .promote m → NamesFunction s m statement := by
  rcases hdirective : directive? s statement with _ | v | _ | v | access
  · -- The statement is the definition.
    have hkind : statement.kind = .method := by
      rcases deedsOf_of_directive_none s hdirective hd with
        ⟨_, h⟩ | ⟨_, h⟩ | ⟨_, _, h⟩ | ⟨_, _, h⟩ <;> cases h
      exact kind_of_method_mem_deedsOf s hd
    rw [deedsOf_method s hkind, Option.mem_toList, Option.map_eq_some_iff] at hx
    obtain ⟨m, -, rfl⟩ := hx
    exact ⟨trivial, by simp, by simp⟩
  · rw [deedsOf_visibility s hdirective] at hx
    split at hx
    · obtain rfl := List.mem_singleton.1 hx
      exact ⟨trivial, by simp, by simp⟩
    · obtain ⟨a, -, hx⟩ := List.mem_flatMap.1 hx
      obtain ⟨hleaf, hclass, hpromote⟩ := Argument.beside_of_mem_visibilityDeeds hx
      exact ⟨hleaf, hclass, fun m hm => absurd hm (hpromote m)⟩
  · have hdeeds := deedsOf_moduleFunction s hdirective
    split at hdeeds
    · rw [hdeeds] at hd
      simp at hd
    · rw [hdeeds] at hx
      obtain ⟨a, ha, hx⟩ := List.mem_flatMap.1 hx
      obtain ⟨hleaf, hclass, hpromote⟩ := Argument.beside_of_mem_functionDeeds hx
      refine ⟨hleaf, hclass, fun m hm => ?_⟩
      rw [← function_mem_deedsOf, hdeeds]
      exact List.mem_flatMap.2 ⟨a, ha, hpromote m hm⟩
  · rw [deedsOf_directive s hdirective] at hd
    obtain ⟨a, -, hd⟩ := List.mem_flatMap.1 hd
    cases a <;> simp [Argument.classVisibilityDeeds] at hd
  · rw [deedsOf_directive s hdirective] at hd
    simp [directiveItem, Item.deeds] at hd

/-- The names of the members that a deed records. -/
def Deed.recorded : Deed → List Text
  | method _ name | singletonMethod _ name => [name]
  | attributes _ _ names => names
  | _ => []

/-- Deeds that do not record the name again leave its latest definition alone, if that is a class
method already wherever one of them goes back to it. -/
theorem latestOf_beside {C : Text} {ds : List Deed} {r : Definition} (hds : ∀ x ∈ ds, x.IsLeaf ∧
      name ∉ x.recorded ∧ (∀ v, x ≠ .setClassVisibility name v) ∧
        (x = .promote name → r.scope = .onClass))
    {w : Walk} (hpath : containerOf path = C) (h : latestOf C name w.found = some r) :
    latestOf C name (ds.foldl (Deed.run path) w).found = some r := by
  induction ds generalizing w with
  | nil => exact h
  | cons x ds ih =>
      obtain ⟨⟨hleaf, hrecorded, hclass, hpromote⟩, hds⟩ := List.forall_mem_cons.1 hds
      refine ih hds ?_
      by_cases hname : name ∈ x.names
      swap
      · rw [latestOf_run hleaf fun _ => hname, h]
      cases x with
      | declare | function => exact h
      | promote m =>
          obtain rfl : name = m := List.mem_singleton.1 hname
          have hscope := hpromote rfl
          rw [Deed.run, hpath, latestOf_promote, h, Option.map_some, if_neg]
          simp [Walk.isPromotable, hscope]
      | setClassVisibility m v =>
          obtain rfl : name = m := List.mem_singleton.1 hname
          exact absurd rfl (hclass v)
      | fromHere | functionsFromHere | singletonClass | container => cases hname
      | _ => exact absurd hname hrecorded

/-! ## What the body says of the name -/

/-- The visibility of the copy of a method for which only its own statement may declare one. -/
def copyBy (s : Source) (name : Text) (statement : Node) : Visibility :=
  if keywordNaming? s name statement = some .pub then .pub else .priv

/-- The copy goes by the visibility declared last. -/
theorem copyVisibility_foldl (ds : List Deed) :
    (ds.foldl Deed.onContext {}).copyVisibility name =
      if latest (Deed.declared? name) ds = some .pub then .pub else .priv := by
  have hself : (ds.foldl Deed.onContext {}).onSelf = false := Deed.onSelf_foldl ds {}
  have hlookup := Deed.lookup_names_foldl ds {} name
  simp only [Context.names, hself, Bool.false_eq_true, if_false, List.lookup_nil,
    Option.or_none] at hlookup
  rw [Context.copyVisibility, hlookup]

theorem latest_declared_of_silent {statements : List Node}
    (h : ∀ x ∈ statements, IsSilent s path name x ∨ CallsFor s name x) :
    latest (Deed.declared? name) (statements.flatMap (deedsOf s)) = none := by
  refine latest_eq_none_iff.2 fun x hx => ?_
  obtain ⟨statement, hstatement, hx⟩ := List.mem_flatMap.1 hx
  rcases h statement hstatement with hsilent | hcalls
  · exact hsilent.declared? hx
  · rw [hcalls.deedsOf] at hx
    simp only [List.mem_cons, List.not_mem_nil, or_false] at hx
    rcases hx with rfl | rfl <;> rfl

namespace Place

variable {body d : Node}

/-- A call for the method stands before it; nothing else in the body mentions the method, but for
its own statement, which does not record it again. -/
def CalledBefore (p : Place s body (.method d name)) (path : Option Text) : Prop :=
  (∃ before₁ call before₂, p.before = before₁ ++ call :: before₂ ∧ CallsFor s name call ∧
      ∀ x ∈ before₁ ++ before₂ ++ p.after, IsSilent s path name x) ∧
    ∀ x ∈ p.later, name ∉ x.recorded

/-- A call for the method stands after it; nothing else in the body mentions the method, but for
its own statement, which does not record it again. -/
def CalledAfter (p : Place s body (.method d name)) (path : Option Text) : Prop :=
  (∃ after₁ call after₂, p.after = after₁ ++ call :: after₂ ∧ CallsFor s name call ∧
      ∀ x ∈ p.before ++ after₁ ++ after₂, IsSilent s path name x) ∧
    ∀ x ∈ p.later, name ∉ x.recorded

theorem mem_deedsOf {deed : Deed} (p : Place s body deed) : deed ∈ deedsOf s p.statement := by
  rw [p.deeds_eq]
  exact List.mem_append_right _ List.mem_cons_self

/-- The copy that the method leaves when it is recorded as a function of the module. -/
theorem copyVisibility_walk (p : Place s body (.method d name)) (path : Option Text)
    (found : List Definition)
    (h : ∀ x ∈ p.before, IsSilent s path name x ∨ CallsFor s name x) :
    (p.walk path { found }).context.copyVisibility name = copyBy s name p.statement := by
  obtain ⟨hdeclared, -⟩ := said_before_method p.deeds_eq
  rw [context_walk, copyVisibility_foldl, latest_append, hdeclared, latest_declared_of_silent h,
    Option.or_none, copyBy]

/-- What stands beside the method in its own statement leaves its record alone. -/
theorem latestOf_later (p : Place s body (.method d name)) (path : Option Text) {r : Definition}
    (hrecorded : ∀ x ∈ p.later, name ∉ x.recorded)
    (hscope : p.MakesFunction name → r.scope = .onClass) {w : Walk}
    (h : latestOf (containerOf path) name w.found = some r) :
    latestOf (containerOf path) name (p.later.foldl (Deed.run path) w).found = some r := by
  refine latestOf_beside (fun x hx => ?_) rfl h
  have hmem : x ∈ deedsOf s p.statement := by
    rw [p.deeds_eq]
    exact List.mem_append_right _ (List.mem_cons_of_mem _ hx)
  obtain ⟨hleaf, hclass, hpromote⟩ := beside_method p.mem_deedsOf hmem
  exact ⟨hleaf, hrecorded x hx, hclass name, fun hx =>
    hscope (.inr ⟨p.statement, by simp, hpromote name hx⟩)⟩

/-- **A call before the method.**  The method is recorded as a public function of the module. -/
theorem latestOf_of_calledBefore (p : Place s body (.method d name)) (found : List Definition)
    (h : p.CalledBefore path) :
    latestOf (containerOf path) name (walkItems path (ofRoot s body) { found }).found =
      some ⟨d, name, containerOf path, .onClass, .pub,
        .method (some (copyBy s name p.statement))⟩ := by
  obtain ⟨⟨before₁, call, before₂, hbefore, hcall, hsilent⟩, hrecorded⟩ := h
  have hmakes : p.MakesFunction name := by
    refine .inr ⟨call, by simp [hbefore], ?_⟩
    rw [← function_mem_deedsOf, hcall.deedsOf]
    exact List.mem_cons_self
  have hcopy := p.copyVisibility_walk path found fun x hx => by
    rw [hbefore, List.mem_append, List.mem_cons] at hx
    rcases hx with hx | rfl | hx
    · exact .inl (hsilent x (by simp [hx]))
    · exact .inr hcall
    · exact .inl (hsilent x (by simp [hx]))
  -- What follows is silent, so the record made here is the latest at the end.
  rw [p.walkItems_eq, p.run_method_of_makesFunction path found hmakes, hcopy, goOn,
    List.foldl_append, latestOf_foldl_deedsOf fun x hx => hsilent x (by simp [hx])]
  exact p.latestOf_later path hrecorded (fun _ => rfl) (latestOf_cons_of_named rfl rfl _)

section AtCall

variable {after₁ after₂ : List Node} {call : Node}

/-- The place of a call after the method, where it goes back to the method. -/
def atCall (p : Place s body (.method d name)) (hafter : p.after = after₁ ++ call :: after₂)
    (hcall : CallsFor s name call) : Place s body (.promote name) where
  before := p.before ++ p.statement :: after₁
  statement := call
  after := after₂
  earlier := [.function name]
  later := []
  statements_eq := by rw [p.statements_eq, hafter]; simp
  deeds_eq := hcall.deedsOf

theorem walk_atCall (p : Place s body (.method d name))
    (hafter : p.after = after₁ ++ call :: after₂) (hcall : CallsFor s name call) (w : Walk) :
    (p.atCall hafter hcall).walk path w =
      (after₁.flatMap (deedsOf s) ++ [Deed.function name]).foldl (Deed.run path)
        (p.later.foldl (Deed.run path) ((Deed.method d name).run path (p.walk path w))) := by
  show ((p.before ++ p.statement :: after₁).flatMap (deedsOf s) ++ [Deed.function name]).foldl
    (Deed.run path) w = _
  rw [List.flatMap_append, List.flatMap_cons, p.deeds_eq, walk]
  simp only [List.foldl_append, List.foldl_cons, List.append_assoc, List.cons_append]

/-- The copy goes by what the statement of the method declares, as at the method itself. -/
theorem copyVisibility_atCall (p : Place s body (.method d name))
    (hafter : p.after = after₁ ++ call :: after₂) (hcall : CallsFor s name call)
    (found : List Definition) (hsilent : ∀ x ∈ p.before ++ after₁, IsSilent s path name x) :
    ((p.atCall hafter hcall).walk path { found }).context.copyVisibility name =
      copyBy s name p.statement := by
  have hnone : ∀ {statements : List Node}, (∀ x ∈ statements, x ∈ p.before ++ after₁) →
      latest (Deed.declared? name) (statements.flatMap (deedsOf s)) = none := fun h =>
    latest_declared_of_silent fun x hx => .inl (hsilent x (h x hx))
  have hdeclared : latest (Deed.declared? name)
      ((p.before ++ p.statement :: after₁).flatMap (deedsOf s) ++ [Deed.function name]) =
        keywordNaming? s name p.statement := by
    rw [latest_concat, List.flatMap_append, List.flatMap_cons, latest_append, latest_append,
      latest_declared_deedsOf, hnone fun _ => List.mem_append_left _,
      hnone fun _ => List.mem_append_right _]
    simp [Deed.declared?]
  rw [context_walk, copyVisibility_foldl, copyBy, ← hdeclared]
  rfl

end AtCall

/-- A call after the method promotes what is recorded at the method, if that can be promoted. -/
theorem latestOf_promoted (p : Place s body (.method d name)) (found : List Definition)
    (h : p.CalledAfter path) {r : Definition} (hr : latestOf (containerOf path) name
      ((Deed.method d name).run path (p.walk path { found })).found = some r)
    (hscope : p.MakesFunction name → r.scope = .onClass) :
    latestOf (containerOf path) name (walkItems path (ofRoot s body) { found }).found =
      some (if Walk.isPromotable (containerOf path) name r then
        Walk.promoted (copyBy s name p.statement) r else r) := by
  obtain ⟨⟨after₁, call, after₂, hafter, hcall, hsilent⟩, hrecorded⟩ := h
  have hcopy := p.copyVisibility_atCall hafter hcall found fun x hx =>
    hsilent x (List.mem_append_left _ hx)
  have hlater := p.latestOf_later path hrecorded hscope hr
  have hfunction : ∀ w : Walk, ((Deed.function name).run path w).found = w.found := fun _ => rfl
  have hsilent₂ : ∀ x ∈ (p.atCall hafter hcall).after, IsSilent s path name x := fun x hx =>
    hsilent x (List.mem_append_right _ hx)
  -- Neither between the definition and the call nor after both is there more on the name.
  rw [(p.atCall hafter hcall).walkItems_eq, goOn, List.foldl_append,
    latestOf_foldl_deedsOf hsilent₂]
  show latestOf _ _ (((p.atCall hafter hcall).walk path { found }).promote (containerOf path)
    name).found = _
  rw [latestOf_promote, hcopy, p.walk_atCall, List.foldl_append, List.foldl_cons, List.foldl_nil,
    hfunction, latestOf_foldl_deedsOf fun x hx => hsilent x (by simp [hx]), hlater, Option.map_some]

/-- **A call after the method.**  The method becomes a function of the module.  It is public unless
it was recorded as a protected method of the instances, which it stays. -/
theorem latestOf_of_calledAfter (p : Place s body (.method d name)) (found : List Definition)
    (h : p.CalledAfter path) :
    ∃ v, latestOf (containerOf path) name (walkItems path (ofRoot s body) { found }).found =
        some ⟨d, name, containerOf path, .onClass, v,
          .method (some (copyBy s name p.statement))⟩ ∧
      (v = .pub ∨ v = .prot) ∧
      (v = .prot ↔ p.visibility name = .prot ∧ ¬ p.MakesFunction name) := by
  by_cases hmakes : p.MakesFunction name
  · have hrun := p.run_method_of_makesFunction path found hmakes
    have hbefore : ∀ x ∈ p.before, IsSilent s path name x ∨ CallsFor s name x := by
      obtain ⟨⟨after₁, call, after₂, -, -, hsilent⟩, -⟩ := h
      exact fun x hx => .inl (hsilent x (by simp [hx]))
    rw [p.copyVisibility_walk path found hbefore] at hrun
    -- A class method is not gone back to.
    refine ⟨.pub, ?_, .inl rfl, iff_of_false nofun fun h => h.2 hmakes⟩
    rw [p.latestOf_promoted found h (by rw [hrun]; exact latestOf_cons_of_named rfl rfl _)
      fun _ => rfl, if_neg]
    simp [Walk.isPromotable]
  · have hrun := p.run_method_of_not_makesFunction path found hmakes
    refine ⟨if p.visibility name = .priv then .pub else p.visibility name, ?_, ?_, ?_⟩
    · rw [p.latestOf_promoted found h (by rw [hrun]; exact latestOf_cons_of_named rfl rfl _)
        fun h => absurd h hmakes, if_pos]
      · rfl
      · simp [Walk.isPromotable, Definition.isMethod, kind_of_method_mem_deedsOf s p.mem_deedsOf]
    · cases p.visibility name <;> simp
    · cases p.visibility name <;> simp [hmakes]

end Place

/-- **Either side of the method.**  Take two bodies of one container, each with a method `name`, a
call that makes a function of it, and nothing else that mentions it but the statement of the method
itself, which declares it alike in both.  In the first the call comes before the method, in the
second after it.  Both record a function of the module with the same copy, the first a public one.
The second is public too, whatever keywords came before, unless `protected` is in force for the
method and the word for functions of the module is not; then it is protected. -/
theorem record_either_side {s s' : Source} {body body' d d' : Node} {name : Text}
    (path : Option Text) (p : Place s body (.method d name)) (p' : Place s' body' (.method d' name))
    (found found' : List Definition) (hbefore : p.CalledBefore path) (hafter : p'.CalledAfter path)
    (hsame : keywordNaming? s' name p'.statement = keywordNaming? s name p.statement) :
    ∃ r v,
      latestOf (containerOf path) name (walkItems path (ofRoot s body) { found }).found = some r ∧
      latestOf (containerOf path) name
          (walkItems path (ofRoot s' body') { found := found' }).found =
        some { r with node := d', visibility := v } ∧
      r.node = d ∧ r.scope = .onClass ∧ r.visibility = .pub ∧ r.isModuleFunction ∧
      (v = .pub ∨ v = .prot) ∧
      (v = .prot ↔ p'.visibility name = .prot ∧ ¬ p'.MakesFunction name) := by
  have hfirst := p.latestOf_of_calledBefore found hbefore
  obtain ⟨v, hsecond, hv⟩ := p'.latestOf_of_calledAfter found' hafter
  have hcopy : copyBy s' name p'.statement = copyBy s name p.statement := by
    rw [copyBy, copyBy, hsame]
  rw [hcopy] at hsecond
  exact ⟨_, v, hfirst, hsecond, rfl, rfl, rfl, rfl, hv⟩

/-! ## A method below a keyword -/

/-- A keyword without arguments. -/
def bareWord (start stop : Nat) : Node :=
  ⟨.identifier, none, start, stop, 1, true, false, false, []⟩

/-- The definition of `go`. -/
def goDef (start : Nat) : Node :=
  ⟨.method, none, start, start + 10, 1, true, false, false,
    [⟨.identifier, some .name, start + 4, start + 6, 1, true, false, false, []⟩]⟩

/-- A call `module_function :go`. -/
def goCall (start : Nat) : Node :=
  ⟨.call, none, start, start + 19, 1, true, false, false,
    [⟨.identifier, some .method, start, start + 15, 1, true, false, false, []⟩,
      ⟨.argumentList, some .arguments, start + 16, start + 19, 1, true, false, false,
        [⟨.literal .simpleSymbol, none, start + 16, start + 19, 1, true, false, false, []⟩]⟩]⟩

/-- A module with these statements. -/
def goModule (statements : List Node) : Node :=
  ⟨.moduleDef, none, 0, 0, 0, true, false, false,
    [⟨.constant, some .name, 7, 8, 0, true, false, false, []⟩,
      ⟨.body, some .body, 9, 0, 1, true, false, false, statements⟩]⟩

/-- A text in which the keyword at `word` stands for `v`, the definition at `start` is one of `go`,
and the call at `call` makes a function of it. -/
structure IsGoText (s : Source) (v : Visibility) (word stop start call : Nat) : Prop where
  word_eq : directive? s (bareWord word stop) = some (.visibility v)
  name_eq : methodName? s (goDef start) = some (Text.ofString "go")
  calls : CallsFor s (Text.ofString "go") (goCall call)

namespace IsGoText

variable {v : Visibility} {word stop start call : Nat}

theorem deedsOf_goDef (h : IsGoText s v word stop start call) :
    deedsOf s (goDef start) = [.method (goDef start) (Text.ofString "go")] := by
  rw [deedsOf_method s rfl, h.name_eq]
  rfl

theorem directive?_goDef : directive? s (goDef start) = none := by
  rw [directive?, if_neg]
  simp [Node.isReceiverless, goDef]

theorem isSilent_word (h : IsGoText s v word stop start call) :
    IsSilent s path (Text.ofString "go") (bareWord word stop) := by
  rw [IsSilent, items_directive s h.word_eq]
  simp [directiveItem, bareWord, Node.arguments, mentionedIn, mentionedBy, Item.deeds, Deed.names]

/-- The definition, with the call before it. -/
def placeBelow (h : IsGoText s v word stop start call) :
    Place s (goModule [goCall call, bareWord word stop, goDef start])
      (.method (goDef start) (Text.ofString "go")) :=
  ⟨[goCall call, bareWord word stop], goDef start, [], [], [], rfl, h.deedsOf_goDef⟩

/-- The definition, with the call after it. -/
def placeAbove (h : IsGoText s v word stop start call) :
    Place s (goModule [bareWord word stop, goDef start, goCall call])
      (.method (goDef start) (Text.ofString "go")) :=
  ⟨[bareWord word stop], goDef start, [goCall call], [], [], rfl, h.deedsOf_goDef⟩

theorem calledBefore (h : IsGoText s v word stop start call) (path : Option Text) :
    h.placeBelow.CalledBefore path :=
  ⟨⟨[], goCall call, [bareWord word stop], rfl, h.calls,
    by simpa [placeBelow] using h.isSilent_word⟩, by simp [placeBelow]⟩

theorem calledAfter (h : IsGoText s v word stop start call) (path : Option Text) :
    h.placeAbove.CalledAfter path :=
  ⟨⟨[], goCall call, [], rfl, h.calls, by simpa [placeAbove] using h.isSilent_word⟩,
    by simp [placeAbove]⟩

theorem keywordNaming?_goDef : keywordNaming? s name (goDef start) = none := by
  rw [keywordNaming?, directive?_goDef]

/-- The keyword is what is in force for the definition. -/
theorem visibility_eq (h : IsGoText s v word stop start call) :
    h.placeAbove.visibility (Text.ofString "go") = v := by
  have hnaming : keywordNaming? s (Text.ofString "go") (bareWord word stop) = none := by
    rw [keywordNaming?, h.word_eq]
    rfl
  have hbare : bareKeyword? s (bareWord word stop) = some v := by
    rw [bareKeyword?, h.word_eq]
    rfl
  show (latest (keywordNaming? s _) [bareWord word stop, goDef start]).getD
    ((latest (bareKeyword? s) [bareWord word stop]).getD .pub) = v
  simp [latest, hnaming, hbare, keywordNaming?_goDef]

theorem not_makesFunction (h : IsGoText s v word stop start call) :
    ¬ h.placeAbove.MakesFunction (Text.ofString "go") := by
  have hbefore : h.placeAbove.before = [bareWord word stop] := rfl
  have hstatement : h.placeAbove.statement = goDef start := rfl
  rintro (⟨before₁, w, before₂, hw, hfunction, -⟩ | ⟨call, hcall, hfunction⟩)
  · obtain rfl : w = bareWord word stop := by
      have hmem : w ∈ [bareWord word stop] := by simp [← hbefore, hw]
      exact List.mem_singleton.1 hmem
    simp [IsFunctionWord, h.word_eq] at hfunction
  · rw [hbefore, hstatement] at hcall
    simp only [List.cons_append, List.nil_append, List.mem_cons, List.not_mem_nil,
      or_false] at hcall
    rcases hcall with rfl | rfl
    · simp [NamesFunction, h.word_eq] at hfunction
    · simp [NamesFunction, directive?_goDef] at hfunction

end IsGoText

/-- Below `private`, the call gives the same record from either side. -/
theorem record_either_side_private :
    ∃ r, latestOf (Text.ofString "M") (Text.ofString "go")
        (walkItems (some (Text.ofString "M"))
          (ofRoot (.ofText "module M\nmodule_function :go\nprivate\ndef go\nend\nend\n")
            (goModule [goCall 9, bareWord 29 36, goDef 37])) {}).found = some r ∧
      latestOf (Text.ofString "M") (Text.ofString "go")
        (walkItems (some (Text.ofString "M"))
          (ofRoot (.ofText "module M\nprivate\ndef go\nend\nmodule_function :go\nend\n")
            (goModule [bareWord 9 16, goDef 17, goCall 28])) {}).found =
          some { r with node := goDef 17, visibility := .pub } ∧
      r.node = goDef 37 ∧ r.scope = .onClass ∧ r.visibility = .pub ∧ r.isModuleFunction := by
  have h : IsGoText (.ofText "module M\nmodule_function :go\nprivate\ndef go\nend\nend\n")
      .priv 29 36 37 9 :=
    ⟨by decide, by decide, by decide, _, rfl, by decide, by decide⟩
  have h' : IsGoText (.ofText "module M\nprivate\ndef go\nend\nmodule_function :go\nend\n")
      .priv 9 16 17 28 :=
    ⟨by decide, by decide, by decide, _, rfl, by decide, by decide⟩
  obtain ⟨r, v, hr, hr', hnode, hscope, hvisibility, hfunction, hv, hprot⟩ :=
    record_either_side (some (Text.ofString "M")) h.placeBelow h'.placeAbove [] []
      (h.calledBefore _) (h'.calledAfter _)
      (IsGoText.keywordNaming?_goDef.trans IsGoText.keywordNaming?_goDef.symm)
  obtain rfl : v = .pub := hv.resolve_right fun hv => by
    have hpriv := (hprot.1 hv).1
    rw [h'.visibility_eq] at hpriv
    cases hpriv
  exact ⟨r, hr, hr', hnode, hscope, hvisibility, hfunction⟩

/-- Below `protected`, the call before the definition records a public function of the module; the
call after it leaves a protected one. -/
theorem record_after_protected :
    (∃ r, latestOf (Text.ofString "M") (Text.ofString "go")
        (walkItems (some (Text.ofString "M"))
          (ofRoot (.ofText "module M\nmodule_function :go\nprotected\ndef go\nend\nend\n")
            (goModule [goCall 9, bareWord 29 38, goDef 39])) {}).found = some r ∧
      r.isModuleFunction ∧ r.visibility = .pub) ∧
    ∃ r, latestOf (Text.ofString "M") (Text.ofString "go")
        (walkItems (some (Text.ofString "M"))
          (ofRoot (.ofText "module M\nprotected\ndef go\nend\nmodule_function :go\nend\n")
            (goModule [bareWord 9 18, goDef 19, goCall 30])) {}).found = some r ∧
      r.isModuleFunction ∧ r.visibility = .prot := by
  have h : IsGoText (.ofText "module M\nmodule_function :go\nprotected\ndef go\nend\nend\n")
      .prot 29 38 39 9 :=
    ⟨by decide, by decide, by decide, _, rfl, by decide, by decide⟩
  have h' : IsGoText (.ofText "module M\nprotected\ndef go\nend\nmodule_function :go\nend\n")
      .prot 9 18 19 30 :=
    ⟨by decide, by decide, by decide, _, rfl, by decide, by decide⟩
  have hbefore :=
    h.placeBelow.latestOf_of_calledBefore [] (h.calledBefore (some (Text.ofString "M")))
  obtain ⟨v, hafter, -, hprot⟩ :=
    h'.placeAbove.latestOf_of_calledAfter [] (h'.calledAfter (some (Text.ofString "M")))
  obtain rfl := hprot.2 ⟨h'.visibility_eq, h'.not_makesFunction⟩
  exact ⟨⟨_, hbefore, rfl, rfl⟩, ⟨_, hafter, rfl, rfl⟩⟩

end RubyDoc.Outline
