import RubyDoc.Proofs.Outline.Frame
import RubyDoc.Proofs.Syntax.Preorder
import RubyDoc.Proofs.Syntax.Related

/-!
# Containers do not interfere

A class or module in a file may be taken out without any effect on the members of a container that
it neither is nor contains: `members_without`.  Taking it out leaves a `nil` in its place, so that
everything around it keeps its shape.  Trees that differ in this way are `Alike`, and the outline of
one is that of the other without some containers.
-/

namespace RubyDoc.Syntax

/-- A `nil` where the node stands. -/
def Node.asNil (n : Node) : Node :=
  { n with kind := .literal .nil, children := [] }

/-- The second tree is the first with one `old` in it replaced by `new`. -/
inductive Replaced (old new : Node) : Node → Node → Prop
  | here : Replaced old new old new
  | inside {n c c' : Node} {before after : List Node} (hn : n.children = before ++ c :: after)
      (h : Replaced old new c c') :
      Replaced old new n { n with children := before ++ c' :: after }

end RubyDoc.Syntax

namespace RubyDoc.Outline

open Syntax Analysis

/-- The second tree is the first with some classes and modules replaced by `nil`.  The arguments of
a call are a list of their own and never a class, so no class is replaced there. -/
inductive Alike : Node → Node → Prop
  | asNil {n : Node} (hn : isContainer n) (hfield : n.field ≠ some .arguments) : Alike n n.asNil
  | node {n : Node} {children : List Node} (h : List.Forall₂ Alike n.children children) :
      Alike n { n with children }

theorem Alike.refl : ∀ n : Node, Alike n n
  | ⟨kind, field, startByte, endByte, row, isNamed, isMissing, hasError, children⟩ =>
      .node (n := ⟨kind, field, startByte, endByte, row, isNamed, isMissing, hasError, children⟩)
        (List.forall₂_same.2 fun c _ => Alike.refl c)

theorem alike_of_replaced {old root root' : Node} (hold : isContainer old)
    (hfield : old.field ≠ some .arguments) (h : Replaced old old.asNil root root') :
    Alike root root' := by
  induction h with
  | here => exact .asNil hold hfield
  | @inside n c c' before after hn _ ih =>
      refine .node ?_
      rw [hn]
      exact List.rel_append (List.forall₂_same.2 fun c _ => .refl c)
        (.cons ih (List.forall₂_same.2 fun c _ => .refl c))

/-! ## What alike nodes have in common -/

namespace Alike

variable {n n' : Node}

theorem field_eq (h : Alike n n') : n'.field = n.field := by cases h <;> rfl

theorem isNamed_eq (h : Alike n n') : n'.isNamed = n.isNamed := by cases h <;> rfl

theorem textOf_eq (h : Alike n n') (s : Source) : s.textOf n' = s.textOf n := by cases h <;> rfl

/-- Only classes, modules and `nil` are exchanged. -/
theorem kind_eq_iff (h : Alike n n') {k : Kind}
    (hk : k ∉ [Kind.classDef, .moduleDef, .literal .nil]) : n'.kind = k ↔ n.kind = k := by
  cases h with
  | asNil hn _ =>
      simp only [isContainer, Bool.or_eq_true, decide_eq_true_eq] at hn
      simp only [List.mem_cons, List.not_mem_nil, or_false, not_or] at hk
      refine iff_of_false (Ne.symm hk.2.2) ?_
      rintro rfl
      exact hn.elim hk.1 hk.2.1
  | node => rfl

theorem isCode_eq (h : Alike n n') : n'.isCode = n.isCode := by
  have hcomment := h.kind_eq_iff (k := .comment) (by decide)
  rw [Node.isCode, Node.isCode, h.isNamed_eq]
  simp only [ne_eq, hcomment]

theorem twin (h : Alike n n') (hn : n.kind = n'.kind) : n.Twin n' := by
  cases h <;> exact ⟨hn.symm, rfl, rfl⟩

/-- What is neither class nor module is still what it was, but for what is below it. -/
theorem exists_children (h : Alike n n') (hn : isContainer n = false) :
    ∃ cs, List.Forall₂ Alike n.children cs ∧ n' = { n with children := cs } := by
  cases h with
  | asNil hc _ => simp [hc] at hn
  | node h => exact ⟨_, h, rfl⟩

variable {cs : List Node}

theorem child? (h : List.Forall₂ Alike n.children cs) (f : Field) :
    Option.Rel Alike (n.child? f) ({ n with children := cs }.child? f) :=
  rel_find? (fun _ _ hc => by rw [hc.field_eq]) h

theorem code (h : List.Forall₂ Alike n.children cs) :
    List.Forall₂ Alike n.code { n with children := cs }.code :=
  forall₂_filter (fun _ _ hc => hc.isCode_eq) h

variable (s : Source)

theorem textOf_child?_eq (h : List.Forall₂ Alike n.children cs) (f : Field) :
    ({ n with children := cs }.child? f).map s.textOf = (n.child? f).map s.textOf :=
  map_eq_of_rel (fun _ _ hc => hc.textOf_eq s) (child? h f)

theorem methodName?_eq (h : List.Forall₂ Alike n.children cs) :
    methodName? s { n with children := cs } = methodName? s n := by
  rw [methodName?, methodName?, Source.definitionName?, Source.definitionName?,
    textOf_child?_eq s h]

theorem directive?_of_isContainer (hn : isContainer n) : directive? s n = none := by
  simp only [isContainer, Bool.or_eq_true, decide_eq_true_eq] at hn
  rw [directive?, if_neg]
  rcases hn with hn | hn <;> simp [Node.isReceiverless, hn]

theorem directive?_eq (h : Alike n n') : directive? s n' = directive? s n := by
  cases h with
  | asNil hn _ => rw [directive?_of_isContainer s hn]; rfl
  | @node _ cs h =>
      have hreceiver : ({ n with children := cs }.child? .receiver).isNone =
          (n.child? .receiver).isNone := isNone_eq_of_rel (child? h .receiver)
      have hcallName : s.callName? { n with children := cs } = s.callName? n := by
        rw [Source.callName?, Source.callName?, textOf_child?_eq s h]
        rfl
      rw [directive?, directive?, Node.isReceiverless, Node.isReceiverless, hreceiver, hcallName]

theorem symbolName?_eq (h : Alike n n') : s.symbolName? n' = s.symbolName? n := by
  cases h with
  | asNil hn _ =>
      simp only [isContainer, Bool.or_eq_true, decide_eq_true_eq] at hn
      rcases hn with hn | hn <;> simp [Source.symbolName?, Node.asNil, hn]
  | @node _ cs h =>
      have hparts : ({ n with children := cs }.code.all fun c => c.kind = Kind.stringContent) =
          n.code.all fun c => c.kind = .stringContent := by
        have hstring : ∀ c c', Alike c c' →
            decide (c'.kind = .stringContent) = decide (c.kind = .stringContent) := fun _ _ hc =>
          decide_eq_decide.2 (hc.kind_eq_iff (by decide))
        have hmap := map_eq_of_forall₂ hstring (code h)
        simpa [List.all_map] using congrArg (List.all · id) hmap
      have htext : { n with children := cs }.code.flatMap s.textOf = n.code.flatMap s.textOf := by
        rw [List.flatMap_def, List.flatMap_def,
          map_eq_of_forall₂ (fun _ _ hc => hc.textOf_eq s) (code h)]
      rw [Source.symbolName?, Source.symbolName?, hparts, htext]
      rfl

theorem arguments (h : Alike n n') : List.Forall₂ Alike n.arguments n'.arguments := by
  cases h with
  | asNil hn _ =>
      simp only [isContainer, Bool.or_eq_true, decide_eq_true_eq] at hn
      rcases hn with hn | hn <;> simp [Node.arguments, Node.asNil, hn]
  | @node _ cs h =>
      rw [Node.arguments, Node.arguments]
      by_cases hcall : n.kind = .call
      · rw [if_pos hcall, if_pos hcall, Node.codeOf, Node.codeOf]
        cases hlist : n.child? .arguments with
        | none =>
            rw [eq_none_of_rel (child? h .arguments) hlist]
            exact .nil
        | some list =>
            obtain ⟨list', hlist', halike⟩ := exists_of_rel (child? h .arguments) hlist
            have hfield : list.field = some .arguments := by
              simpa using List.find?_some hlist
            rw [hlist']
            cases halike with
            | asNil _ hnot => exact absurd hfield hnot
            | node h => exact code h
      · rw [if_neg hcall, if_neg hcall]
        exact .nil

theorem attributeNames_eq (h : Alike n n') : attributeNames s n' = attributeNames s n := by
  have hmap := map_eq_of_forall₂ (fun _ _ hc => symbolName?_eq s hc) h.arguments
  simpa [attributeNames] using congrArg (List.filterMap id) hmap

mutual

theorem constantPath?_eq : ∀ {n n' : Node}, Alike n n' → constantPath? s n' = constantPath? s n
  | ⟨kind, field, startByte, endByte, row, isNamed, isMissing, hasError, children⟩, _, h => by
      cases h with
      | asNil hn _ =>
          simp only [isContainer, Bool.or_eq_true, decide_eq_true_eq] at hn
          rcases hn with rfl | rfl <;> rfl
      | @node _ cs h =>
          have hscope := scopePath?_eq h
          have hname : Option.Rel Alike (children.find? fun c => c.field = some .name)
              (cs.find? fun c => c.field = some .name) := child? h .name
          by_cases hkind : kind = .scopeResolution
          swap
          · cases kind <;> first | rfl | exact absurd rfl hkind
          subst hkind
          rw [constantPath?, constantPath?]
          cases hlast : children.find? fun c => c.field = some .name with
          | none => rw [eq_none_of_rel hname hlast]
          | some last =>
              obtain ⟨last', hlast', halike⟩ := exists_of_rel hname hlast
              have hconstant := halike.kind_eq_iff (k := .constant) (by decide)
              simp only [hlast', hconstant, hscope, halike.textOf_eq s]

theorem scopePath?_eq :
    ∀ {cs cs' : List Node}, List.Forall₂ Alike cs cs' → scopePath? s cs' = scopePath? s cs
  | [], _, h => by
      cases h
      rfl
  | c :: cs, _, h => by
      cases h with
      | cons hc hcs =>
          rw [scopePath?, scopePath?, hc.field_eq, constantPath?_eq hc, scopePath?_eq hcs]

end

theorem containerSegment_eq (h : List.Forall₂ Alike n.children cs) :
    containerSegment s { n with children := cs } = containerSegment s n := by
  rw [containerSegment, containerSegment]
  cases hname : n.child? .name with
  | none => rw [eq_none_of_rel (child? h .name) hname]
  | some name =>
      obtain ⟨name', hname', halike⟩ := exists_of_rel (child? h .name) hname
      rw [hname']
      simp only [constantPath?_eq s halike, halike.textOf_eq s]

theorem opensOnSelf_eq (h : List.Forall₂ Alike n.children cs) :
    opensOnSelf { n with children := cs } = opensOnSelf n := by
  rw [opensOnSelf, opensOnSelf]
  cases hvalue : n.child? .value with
  | none => rw [eq_none_of_rel (child? h .value) hvalue]
  | some value =>
      obtain ⟨value', hvalue', halike⟩ := exists_of_rel (child? h .value) hvalue
      rw [hvalue', Option.any_some, Option.any_some]
      simp only [halike.kind_eq_iff (k := .selfExpr) (by decide)]

/-! ## Alike statements -/

theorem unclaimed {cs cs' : List Node} (h : List.Forall₂ Alike cs cs') (fields : List Field) :
    List.Forall₂ Alike (Node.unclaimed fields cs) (Node.unclaimed fields cs') := by
  induction h generalizing fields with
  | nil => exact .nil
  | @cons c c' _ _ hc _ ih =>
      rw [Node.unclaimed, Node.unclaimed, hc.field_eq]
      split
      · exact .cons hc (ih fields)
      · split
        · exact ih _
        · exact .cons hc (ih fields)

theorem body? (h : List.Forall₂ Alike n.children cs) :
    Option.Rel Alike n.body? { n with children := cs }.body? := by
  have hnamed : List.Forall₂ Alike n.namedChildren { n with children := cs }.namedChildren :=
    forall₂_filter (fun _ _ hc => hc.isNamed_eq) h
  have hbody := rel_find? (p := fun c => c.kind = .body)
    (fun _ _ hc => by simp only [hc.kind_eq_iff (k := Kind.body) (by decide)]) hnamed
  rw [Node.body?, Node.body?]
  cases hfield : n.child? .body with
  | none =>
      rw [eq_none_of_rel (child? h .body) hfield]
      exact hbody
  | some b =>
      obtain ⟨b', hb', halike⟩ := exists_of_rel (child? h .body) hfield
      rw [hb']
      exact .some halike

theorem statements (h : List.Forall₂ Alike n.children cs) :
    List.Forall₂ Alike n.statements { n with children := cs }.statements := by
  rw [Node.statements, Node.statements]
  by_cases hprogram : n.kind = .program
  · rw [if_pos hprogram, if_pos hprogram]
    exact code h
  rw [if_neg hprogram, if_neg hprogram]
  cases hbody : n.body? with
  | none =>
      rw [eq_none_of_rel (body? h) hbody]
      exact forall₂_filter (fun _ _ hc => hc.isCode_eq) (unclaimed h _)
  | some b =>
      obtain ⟨b', hb', halike⟩ := exists_of_rel (body? h) hbody
      have hkind := halike.kind_eq_iff (k := .body) (by decide)
      rw [hb']
      dsimp only
      by_cases hb : b.kind = .body
      · rw [if_pos hb, if_pos (hkind.2 hb)]
        obtain ⟨cs, hcs, rfl⟩ := halike.exists_children (by simp [isContainer, hb])
        exact code hcs
      · rw [if_neg hb, if_neg (mt hkind.1 hb)]
        exact .cons halike .nil

end Alike

/-! ## The deeds of alike statements -/

/-- Two arguments that are the same but for their nodes. -/
inductive Argument.Twin : Argument → Argument → Prop
  | method {n n' : Node} (h : n.Twin n') (name : Text) : Twin (.method n name) (.method n' name)
  | singletonMethod {n n' : Node} (h : n.Twin n') (name : Text) :
      Twin (.singletonMethod n name) (.singletonMethod n' name)
  | attributes {n n' : Node} (h : n.Twin n') (access : Access) (names : List Text) :
      Twin (.attributes n access names) (.attributes n' access names)
  | named (name : Text) : Twin (.named name) (.named name)

namespace Argument.Twin

variable {a a' : Argument}

theorem visibilityDeeds (h : Argument.Twin a a') (v : Visibility) :
    List.Forall₂ Deed.Twin (a.visibilityDeeds v) (a'.visibilityDeeds v) := by
  cases h with
  | method h name => exact .cons (.declare name v) (.cons (.method h name) .nil)
  | singletonMethod h name => exact .cons (.declare name v) (.cons (.singletonMethod h name) .nil)
  | attributes h access names =>
      refine List.rel_append (List.forall₂_same.2 fun d hd => ?_)
        (.cons (.attributes h access names) .nil)
      obtain ⟨name, -, rfl⟩ := List.mem_map.1 hd
      exact .declare name v
  | named name => exact .cons (.declare name v) .nil

theorem functionDeeds (h : Argument.Twin a a') :
    List.Forall₂ Deed.Twin a.functionDeeds a'.functionDeeds := by
  cases h with
  | method h name => exact .cons (.function name) (.cons (.method h name) .nil)
  | named name => exact .cons (.function name) (.cons (.promote name) .nil)
  | singletonMethod | attributes => exact .nil

theorem classVisibilityDeeds (h : Argument.Twin a a') (v : Visibility) :
    List.Forall₂ Deed.Twin (a.classVisibilityDeeds v) (a'.classVisibilityDeeds v) := by
  cases h with
  | singletonMethod h name =>
      exact .cons (.singletonMethod h name) (.cons (.setClassVisibility name v) .nil)
  | named name => exact .cons (.setClassVisibility name v) .nil
  | method | attributes => exact .nil

end Argument.Twin

namespace Alike

variable {n n' : Node} (s : Source)

theorem argument? (h : Alike n n') :
    Option.Rel Argument.Twin (argument? s n) (argument? s n') := by
  by_cases hmethod : n.kind = .method
  · obtain ⟨cs, hcs, rfl⟩ := h.exists_children (by simp [isContainer, hmethod])
    have hmethod' : { n with children := cs }.kind = .method := hmethod
    rw [argument?_method s hmethod, argument?_method s hmethod', methodName?_eq s hcs]
    cases methodName? s n with
    | none => exact .none
    | some name => exact .some (.method (h.twin rfl) name)
  by_cases hsingleton : n.kind = .singletonMethod
  · obtain ⟨cs, hcs, rfl⟩ := h.exists_children (by simp [isContainer, hsingleton])
    have hsingleton' : { n with children := cs }.kind = .singletonMethod := hsingleton
    rw [argument?_singletonMethod s hsingleton, argument?_singletonMethod s hsingleton',
      methodName?_eq s hcs]
    cases methodName? s n with
    | none => exact .none
    | some name => exact .some (.singletonMethod (h.twin rfl) name)
  have hmethod' := mt (h.kind_eq_iff (k := .method) (by decide)).1 hmethod
  have hsingleton' := mt (h.kind_eq_iff (k := .singletonMethod) (by decide)).1 hsingleton
  have hdirective := directive?_eq s h
  by_cases hattribute : ∃ access, directive? s n = some (.attribute access)
  · obtain ⟨access, haccess⟩ := hattribute
    have hkind := (h.kind_eq_iff (k := .call) (by decide)).2 (kind_of_attribute s haccess)
    rw [argument?_attribute s haccess, argument?_attribute s (hdirective.trans haccess),
      attributeNames_eq s h]
    exact .some (.attributes (h.twin (by rw [hkind, kind_of_attribute s haccess])) _ _)
  · have hnone := not_exists.1 hattribute
    rw [argument?_other s hmethod hsingleton hnone,
      argument?_other s hmethod' hsingleton' (fun access => hdirective ▸ hnone access),
      symbolName?_eq s h]
    cases s.symbolName? n with
    | none => exact .none
    | some name => exact .some (.named name)

theorem isLeaf_directiveItem (n : Node) (d : Directive) : (directiveItem s n d).IsLeaf := by
  cases d with
  | visibility v => rw [directiveItem]; split <;> trivial
  | moduleFunction => rw [directiveItem]; split <;> trivial
  | _ => trivial

theorem deeds_directiveItem (h : Alike n n') (hkind : n.kind = n'.kind) (d : Directive) :
    List.Forall₂ Deed.Twin (directiveItem s n d).deeds (directiveItem s n' d).deeds := by
  have harguments : List.Forall₂ Argument.Twin (n.arguments.filterMap (Outline.argument? s))
      (n'.arguments.filterMap (Outline.argument? s)) :=
    List.rel_filterMap (fun _ _ hc => argument? s hc) h.arguments
  have hempty := isEmpty_eq_of_forall₂ h.arguments
  rcases d with v | _ | v | access
  · rw [directiveItem, directiveItem, hempty]
    split
    · exact .cons (.fromHere v) .nil
    · exact List.rel_flatMap harguments fun _ _ ha => ha.visibilityDeeds v
  · rw [directiveItem, directiveItem, hempty]
    split
    · exact .cons .functionsFromHere .nil
    · exact List.rel_flatMap harguments fun _ _ ha => ha.functionDeeds
  · exact List.rel_flatMap harguments fun _ _ ha => ha.classVisibilityDeeds v
  · rw [directiveItem, directiveItem, attributeNames_eq s h]
    exact .cons (.attributes (h.twin hkind) _ _) .nil

end Alike

/-! ## Alike trees -/

theorem nestedItems_eq (s : Source) (cs : List Node) :
    nestedItems s cs = (cs.filter Node.isCode).flatMap fun c =>
      if isContainer c then items s c else nestedItems s c.children := by
  induction cs with
  | nil => rw [nestedItems]; rfl
  | cons c cs ih =>
      have hbelow : itemsBelow s c = nestedItems s c.children := by
        obtain ⟨kind, field, startByte, endByte, row, isNamed, isMissing, hasError, children⟩ := c
        rw [itemsBelow]
      rw [nestedItems, ih, List.filter_cons, hbelow]
      split <;> simp

theorem Pruned.of_isContainer {outline : List Item} (h : ∀ item ∈ outline, item.IsContainer) :
    Pruned outline [] := by
  induction outline with
  | nil => exact .nil
  | cons item rest ih =>
      obtain ⟨⟨segment, inner, rfl⟩, hrest⟩ := List.forall_mem_cons.1 h
      exact .dropped (ih hrest)

theorem Pruned.flatMap {α : Type} {R : α → α → Prop} {f : α → List Item} {as bs : List α}
    (h : List.Forall₂ R as bs) (hf : ∀ a ∈ as, ∀ b, R a b → Pruned (f a) (f b)) :
    Pruned (as.flatMap f) (bs.flatMap f) := by
  induction h with
  | nil => exact .nil
  | cons hab _ ih =>
      obtain ⟨ha, has⟩ := List.forall_mem_cons.1 hf
      exact (ha _ hab).append (ih has)

theorem items_asNil (s : Source) (n : Node) : items s n.asNil = [] := by
  rw [items_other s (by simp [Node.asNil]) (by simp [Node.asNil]) (by simp [Node.asNil]) rfl rfl,
    Node.asNil, nestedItems]

namespace Alike

variable (s : Source) {n n' : Node}

/-- What an alike node contributes to what is nested around it. -/
theorem pruned_nested (h : Alike n n') (hitems : Pruned (items s n) (items s n'))
    (hbelow : Pruned (nestedItems s n.children) (nestedItems s n'.children)) :
    Pruned (if isContainer n then items s n else nestedItems s n.children)
      (if isContainer n' then items s n' else nestedItems s n'.children) := by
  cases h with
  | asNil hn _ =>
      rw [if_pos hn, if_neg (by simp [isContainer, Node.asNil]), items_container s hn, Node.asNil,
        nestedItems]
      exact .dropped .nil
  | @node _ cs hcs =>
      by_cases hn : isContainer n
      · have hn' : isContainer { n with children := cs } := hn
        rwa [if_pos hn, if_pos hn']
      · have hn' : ¬ isContainer { n with children := cs } := hn
        rwa [if_neg hn, if_neg hn']

/-- What a statement is in an outline, from what its body and what is nested in it are. -/
theorem pruned_items {cs : List Node} (hcs : List.Forall₂ Alike n.children cs)
    (hbody : Pruned (ofRoot s n) (ofRoot s { n with children := cs }))
    (hnested : Pruned (nestedItems s n.children)
      (nestedItems s { n with children := cs }.children)) :
    Pruned (items s n) (items s { n with children := cs }) := by
  have halike : Alike n { n with children := cs } := .node hcs
  have hkind : { n with children := cs }.kind = n.kind := rfl
  have hdirective := directive?_eq s halike
  have hname := methodName?_eq s hcs
  have hself := opensOnSelf_eq hcs
  have hsegment := containerSegment_eq s hcs
  generalize { n with children := cs } = n' at *
  have hcontainer : isContainer n' = isContainer n := by rw [isContainer, isContainer, hkind]
  -- The cases are those of an outline: methods, bodies, directives, and all other code.
  by_cases hmethod : n.kind = .method
  · rw [items_method s hmethod, items_method s (hkind.trans hmethod), hname]
    cases methodName? s n with
    | none => exact .nil
    | some name =>
        exact .leaf (.cons (.method (halike.twin hkind.symm) name) .nil) .nil trivial trivial
  by_cases hsingleton : n.kind = .singletonMethod
  · rw [items_singletonMethod s hsingleton, items_singletonMethod s (hkind.trans hsingleton),
      hname]
    cases methodName? s n with
    | none => exact .nil
    | some name =>
        exact .leaf (.cons (.singletonMethod (halike.twin hkind.symm) name) .nil) .nil trivial
          trivial
  by_cases hclass : n.kind = .singletonClass
  · rw [items_singletonClass s hclass, items_singletonClass s (hkind.trans hclass), hself]
    exact .singletonClass hbody .nil
  by_cases hn : isContainer n
  · rw [items_container s hn, items_container s (hcontainer.trans hn), hsegment]
    exact .container hbody .nil
  cases hd : directive? s n with
  | some d =>
      rw [items_directive s hd, items_directive s (hdirective.trans hd)]
      exact .leaf (deeds_directiveItem s halike hkind.symm d) .nil (isLeaf_directiveItem s n d)
        (isLeaf_directiveItem s n' d)
  | none =>
      rw [items_other s hmethod hsingleton hclass (by simpa using hn) hd,
        items_other s (hkind ▸ hmethod) (hkind ▸ hsingleton) (hkind ▸ hclass)
          (by simpa [hcontainer] using hn) (hdirective.trans hd)]
      exact hnested

end Alike

/-- The outline of an alike statement, and what is nested in it, lack some containers. -/
theorem Alike.pruned (s : Source) {n n' : Node} (h : Alike n n') :
    Pruned (items s n) (items s n') ∧
      Pruned (nestedItems s n.children) (nestedItems s n'.children) := by
  induction n using Node.statement_induction generalizing n' with
  | step n ihcode ihstatements =>
    cases h with
    | asNil hn _ =>
        rw [items_container s hn, items_asNil, Node.asNil, nestedItems]
        exact ⟨.dropped .nil, .of_isContainer fun _ => isContainer_of_mem_nestedItems s⟩
    | @node _ cs hcs =>
        have hnested : Pruned (nestedItems s n.children) (nestedItems s cs) := by
          rw [nestedItems_eq, nestedItems_eq]
          refine Pruned.flatMap (code hcs) fun c hc c' hcc' => ?_
          obtain ⟨hitems, hbelow⟩ := ihcode c hc hcc'
          exact hcc'.pruned_nested s hitems hbelow
        have hbody : Pruned (ofRoot s n) (ofRoot s { n with children := cs }) := by
          rw [ofRoot_eq_flatMap, ofRoot_eq_flatMap]
          exact Pruned.flatMap (statements hcs) fun c hc c' hcc' => (ihstatements c hc hcc').1
        exact ⟨pruned_items s hcs hbody hnested, hnested⟩

/-- **Containers do not interfere.**  Take a class or module `old` out of a file, leaving a `nil` in
its place.  If the walk enters the container `C` as often as before, so that neither `old` nor a
container in it was `C`, then the same members of `C` are found, in the same order: each has the
name, scope, visibility and role that it had, and a node of the same kind at the same place. -/
theorem containers_do_not_interfere (s : Source) (C : Text) {old root root' : Node}
    (hroot : isContainer root = false) (hold : isContainer old)
    (hfield : old.field ≠ some .arguments) (h : Replaced old old.asNil root root')
    (hC : (entered none (ofRoot s root')).count C = (entered none (ofRoot s root)).count C) :
    List.Forall₂ Definition.Twin (membersOf C (definitions s root))
      (membersOf C (definitions s root')) := by
  obtain ⟨cs, hcs, rfl⟩ := (alike_of_replaced hold hfield h).exists_children hroot
  refine Pruned.definitionsOf ?_ hC
  rw [ofRoot_eq_flatMap, ofRoot_eq_flatMap]
  exact Pruned.flatMap (Alike.statements hcs) fun _ _ _ hc => (hc.pruned s).1

/-- A class with a visibility keyword, and a method below it. -/
def classAboveGo : Source :=
  .ofText "class A\n  private\nend\ndef go\nend\n"

/-- The keyword. -/
def privateInA : Node :=
  ⟨.identifier, none, 10, 17, 1, true, false, false, []⟩

/-- The class. -/
def classA : Node :=
  ⟨.classDef, none, 0, 21, 0, true, false, false,
    [⟨.constant, some .name, 6, 7, 0, true, false, false, []⟩,
      ⟨.body, some .body, 10, 17, 1, true, false, false, [privateInA]⟩]⟩

/-- The method. -/
def goBelowA : Node :=
  ⟨.method, none, 22, 32, 3, true, false, false,
    [⟨.identifier, some .name, 26, 28, 3, true, false, false, []⟩]⟩

/-- The file with `first` where the class was. -/
def aboveGo (first : Node) : Node :=
  ⟨.program, none, 0, 33, 0, true, false, false, [first, goBelowA]⟩

/-- The keyword in the class says nothing about the method below it. -/
theorem containers_do_not_interfere_go :
    isContainer classA ∧ Replaced classA classA.asNil (aboveGo classA) (aboveGo classA.asNil) ∧
      List.Forall₂ Definition.Twin
        (membersOf topContainer (definitions classAboveGo (aboveGo classA)))
        (membersOf topContainer (definitions classAboveGo (aboveGo classA.asNil))) := by
  have hreplaced : Replaced classA classA.asNil (aboveGo classA) (aboveGo classA.asNil) :=
    @Replaced.inside _ _ (aboveGo classA) _ _ [] [goBelowA] rfl .here
  refine ⟨rfl, hreplaced,
    containers_do_not_interfere classAboveGo topContainer rfl rfl (by decide) hreplaced ?_⟩
  have hclass : items classAboveGo classA =
      [.container (Text.ofString "A") [.visibilityFromHere .priv]] := by
    have hword : directive? classAboveGo privateInA = some (.visibility .priv) := by decide
    have hsegment : containerSegment classAboveGo classA = Text.ofString "A" := by decide
    have hstatements : classA.statements = [privateInA] := rfl
    rw [items_container _ rfl, hsegment, ofRoot_eq_flatMap, hstatements, List.flatMap_singleton,
      items_directive _ hword]
    rfl
  have hgo : items classAboveGo goBelowA = [.method goBelowA (Text.ofString "go")] := by
    have hname : methodName? classAboveGo goBelowA = some (Text.ofString "go") := by decide
    rw [items_method _ rfl, hname]
    rfl
  have hwith : (aboveGo classA).statements = [classA, goBelowA] := rfl
  have hwithout : (aboveGo classA.asNil).statements = [classA.asNil, goBelowA] := rfl
  rw [ofRoot_eq_flatMap, ofRoot_eq_flatMap, hwith, hwithout]
  simp only [List.flatMap_cons, List.flatMap_nil, hclass, hgo, items_asNil]
  decide

end RubyDoc.Outline
