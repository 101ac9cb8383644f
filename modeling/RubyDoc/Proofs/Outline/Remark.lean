import RubyDoc.Proofs.Analysis.Remark
import RubyDoc.Proofs.Outline.Apart

/-!
# Definitions among remarks

The outline of a cleared tree is the outline of the tree with its nodes cleared, and a walk looks at
no more of a node than its kind.  So clearing the remarks of a file clears the nodes of its
definitions and changes nothing else about them (`definitions_cleared`).
-/

namespace RubyDoc.Outline

open Syntax Analysis

/-!  Outlines with other nodes -/

/-- The argument with its node changed. -/
def Argument.mapNode (f : Node → Node) : Argument → Argument
  | method node name => .method (f node) name
  | singletonMethod node name => .singletonMethod (f node) name
  | attributes node access names => .attributes (f node) access names
  | named name => .named name

mutual

/-- The item with its nodes changed. -/
def Item.mapNode (f : Node → Node) : Item → Item
  | .method node name => .method (f node) name
  | .singletonMethod node name => .singletonMethod (f node) name
  | .attributes node access names => .attributes (f node) access names
  | .visibilityFromHere v => .visibilityFromHere v
  | .visibilityOf v arguments => .visibilityOf v (arguments.map (Argument.mapNode f))
  | .moduleFunctionsFromHere => .moduleFunctionsFromHere
  | .moduleFunctionsOf arguments => .moduleFunctionsOf (arguments.map (Argument.mapNode f))
  | .classVisibilityOf v arguments => .classVisibilityOf v (arguments.map (Argument.mapNode f))
  | .singletonClass onSelf inner => .singletonClass onSelf (mapNodes f inner)
  | .container segment inner => .container segment (mapNodes f inner)

/-- The outline with its nodes changed. -/
def mapNodes (f : Node → Node) : List Item → List Item
  | [] => []
  | item :: rest => item.mapNode f :: mapNodes f rest

end

/-- The definition with its node changed. -/
def Definition.mapNode (f : Node → Node) (d : Definition) : Definition :=
  { d with node := f d.node }

/-- The walk with the nodes of what it found changed. -/
def Walk.mapNode (f : Node → Node) (w : Walk) : Walk :=
  { w with found := w.found.map (Definition.mapNode f) }

theorem mapNodes_eq_map (f : Node → Node) (outline : List Item) :
    mapNodes f outline = outline.map (Item.mapNode f) := by
  induction outline with
  | nil => rfl
  | cons item rest ih => rw [mapNodes, List.map_cons, ih]

section Walks

variable {f : Node → Node} {path : Option Text}

theorem modifyFirst_map {α : Type} {p : α → Bool} {g h : α → α} (hp : ∀ a, p (h a) = p a)
    (hg : ∀ a, g (h a) = h (g a)) (as : List α) :
    modifyFirst p g (as.map h) = (modifyFirst p g as).map h := by
  induction as with
  | nil => rfl
  | cons a as ih =>
      rw [List.map_cons, modifyFirst, modifyFirst, hp, hg, ih]
      split <;> rfl

namespace Walk

variable (w : Walk)

theorem addMethod_mapNode (container : Text) (node : Node) (name : Text) :
    (w.mapNode f).addMethod container (f node) name =
      (w.addMethod container node name).mapNode f := by
  simp only [addMethod, apply_ite (mapNode f)]
  rfl

theorem addAttributes_mapNode (container : Text) (node : Node) (access : Access)
    (names : List Text) :
    (w.mapNode f).addAttributes container (f node) access names =
      (w.addAttributes container node access names).mapNode f := by
  rw [addAttributes, addAttributes]
  induction names generalizing w with
  | nil => rfl
  | cons name names ih =>
      rw [List.foldl_cons, List.foldl_cons, ← ih]
      rfl

theorem setClassVisibility_mapNode (container name : Text) (v : Visibility) :
    (w.mapNode f).setClassVisibility container name v =
      (w.setClassVisibility container name v).mapNode f := by
  refine congrArg (Walk.mk w.context)
    (modifyFirst_map (h := Definition.mapNode f) (fun d => ?_) (fun d => ?_) w.found)
  · rfl
  · rfl

theorem visibilityArgument_mapNode (container : Text) (v : Visibility) (a : Argument) :
    (w.mapNode f).visibilityArgument container v (a.mapNode f) =
      (w.visibilityArgument container v a).mapNode f := by
  cases a with
  | method node name =>
      exact addMethod_mapNode (f := f) (w.declaring fun c => c.declare name v) container node name
  | attributes node access names =>
      exact addAttributes_mapNode (f := f)
        (w.declaring fun c => names.foldl (fun c name => c.declare name v) c) container node access
          names
  | singletonMethod | named => rfl

theorem classVisibilityArgument_mapNode (container : Text) (v : Visibility) (a : Argument) :
    (w.mapNode f).classVisibilityArgument container v (a.mapNode f) =
      (w.classVisibilityArgument container v a).mapNode f := by
  cases a with
  | singletonMethod node name =>
      exact setClassVisibility_mapNode (w.addSingletonMethod container node name) container name v
  | named name => exact setClassVisibility_mapNode w container name v
  | method | attributes => rfl

section Kind

variable (hf : ∀ n, (f n).kind = n.kind)
include hf

theorem promote_mapNode (container name : Text) :
    (w.mapNode f).promote container name = (w.promote container name).mapNode f := by
  refine congrArg (Walk.mk w.context)
    (modifyFirst_map (h := Definition.mapNode f) (fun d => ?_) (fun d => ?_) w.found)
  · simp only [isPromotable, Definition.mapNode, hf]
    rfl
  · rfl

theorem moduleFunctionArgument_mapNode (container : Text) (a : Argument) :
    (w.mapNode f).moduleFunctionArgument container (a.mapNode f) =
      (w.moduleFunctionArgument container a).mapNode f := by
  cases a with
  | method node name =>
      exact addMethod_mapNode (f := f) (w.declaring fun c =>
        { c with moduleFunctionNames := name :: c.moduleFunctionNames }) container node name
  | named name =>
      exact promote_mapNode (w.declaring fun c =>
        { c with moduleFunctionNames := name :: c.moduleFunctionNames }) hf container name
  | singletonMethod | attributes => rfl

end Kind

end Walk

mutual

/-- A walk looks at no more of a node than its kind. -/
theorem walkItem_mapNode (hf : ∀ n, (f n).kind = n.kind) (path : Option Text) :
    ∀ (item : Item) (w : Walk),
    walkItem path (item.mapNode f) (w.mapNode f) = (walkItem path item w).mapNode f
  | .method node name, w => w.addMethod_mapNode (containerOf path) node name
  | .singletonMethod _ _, _ | .visibilityFromHere _, _ | .moduleFunctionsFromHere, _ => rfl
  | .attributes node access names, w =>
      w.addAttributes_mapNode (containerOf path) node access names
  | .visibilityOf v arguments, w => by
      rw [Item.mapNode, walkItem, walkItem, List.foldl_map]
      exact List.foldl_hom (Walk.mapNode f)
        fun w a => (w.visibilityArgument_mapNode (containerOf path) v a)
  | .moduleFunctionsOf arguments, w => by
      rw [Item.mapNode, walkItem, walkItem, List.foldl_map]
      exact List.foldl_hom (Walk.mapNode f)
        fun w a => (w.moduleFunctionArgument_mapNode hf (containerOf path) a)
  | .classVisibilityOf v arguments, w => by
      rw [Item.mapNode, walkItem, walkItem, List.foldl_map]
      exact List.foldl_hom (Walk.mapNode f)
        fun w a => (w.classVisibilityArgument_mapNode (containerOf path) v a)
  | .singletonClass onSelf inner, w => by
      rw [Item.mapNode, walkItem, walkItem]
      let context := { w.context with onSelf := onSelf, classDefault := .pub }
      exact congrArg (fun inside => { w with found := inside.found })
        (walkItems_mapNodes hf path inner { w with context })
  | .container segment inner, w => by
      rw [Item.mapNode, walkItem, walkItem]
      exact congrArg (fun inside => { w with found := inside.found })
        (walkItems_mapNodes hf (some (joinContainer (path.getD []) segment)) inner
          { found := w.found })

theorem walkItems_mapNodes (hf : ∀ n, (f n).kind = n.kind) (path : Option Text) :
    ∀ (outline : List Item) (w : Walk),
    walkItems path (mapNodes f outline) (w.mapNode f) = (walkItems path outline w).mapNode f
  | [], w => rfl
  | item :: rest, w => by
      rw [mapNodes, walkItems, walkItems, walkItem_mapNode hf path item,
        walkItems_mapNodes hf path rest]

end

theorem definitionsOf_mapNodes (hf : ∀ n, (f n).kind = n.kind) (outline : List Item) :
    definitionsOf (mapNodes f outline) = (definitionsOf outline).map (Definition.mapNode f) := by
  rw [definitionsOf, definitionsOf, List.map_reverse]
  exact congrArg (fun w => w.found.reverse) (walkItems_mapNodes hf none outline {})

end Walks

/-! ## Outlines without remarks -/

section Cleared

variable (s : Source)

@[simp] theorem directive?_cleared (n : Node) : directive? s n.cleared = directive? s n := by
  rw [directive?, directive?, Node.isReceiverless_cleared, Source.callName?_cleared,
    Node.kind_cleared]

@[simp] theorem methodName?_cleared (n : Node) : methodName? s n.cleared = methodName? s n := by
  rw [methodName?, methodName?, Source.definitionName?_cleared]

@[simp] theorem attributeNames_cleared (n : Node) :
    attributeNames s n.cleared = attributeNames s n := by
  rw [attributeNames, attributeNames, Node.arguments_cleared, List.filterMap_map]
  exact congrArg (List.filterMap · _) (funext s.symbolName?_cleared)

theorem argument?_cleared (n : Node) :
    argument? s n.cleared = (argument? s n).map (Argument.mapNode Node.cleared) := by
  simp only [argument?, Node.kind_cleared, methodName?_cleared, directive?_cleared,
    attributeNames_cleared, Source.symbolName?_cleared]
  split
  · rw [Option.map_map]
    rfl
  · rw [Option.map_map]
    rfl
  · split
    · rfl
    · rw [Option.map_map]
      rfl

theorem directiveItem_cleared (n : Node) (d : Directive) :
    directiveItem s n.cleared d = (directiveItem s n d).mapNode Node.cleared := by
  have harguments : n.cleared.arguments.filterMap (argument? s) =
      (n.arguments.filterMap (argument? s)).map (Argument.mapNode Node.cleared) := by
    rw [Node.arguments_cleared, List.filterMap_map, List.map_filterMap]
    exact congrArg (List.filterMap · _) (funext (argument?_cleared s))
  have hempty : n.cleared.arguments.isEmpty = n.arguments.isEmpty := by
    rw [Node.arguments_cleared, List.isEmpty_map]
  rcases d with v | _ | v | access
  · rw [directiveItem, directiveItem, harguments, hempty, apply_ite (Item.mapNode Node.cleared)]
    rfl
  · rw [directiveItem, directiveItem, hempty, harguments, apply_ite (Item.mapNode Node.cleared)]
    rfl
  · rw [directiveItem, directiveItem, harguments]
    rfl
  · rw [directiveItem, directiveItem, attributeNames_cleared]
    rfl

theorem containerSegment_cleared (n : Node) :
    containerSegment s n.cleared = containerSegment s n := by
  rw [containerSegment, containerSegment, Node.child?_cleared]
  cases n.child? .name with
  | none => rfl
  | some name => simp only [Option.map_some, constantPath?_cleared, Node.textOf_cleared]

theorem opensOnSelf_cleared (n : Node) : opensOnSelf n.cleared = opensOnSelf n := by
  rw [opensOnSelf, opensOnSelf, Node.child?_cleared, Option.any_map]
  simp only [Node.kind_cleared]

theorem isContainer_cleared (n : Node) : isContainer n.cleared = isContainer n := by
  rw [isContainer, isContainer, Node.kind_cleared]

/-- What a statement is in an outline, from what its body and what is nested in it are. -/
theorem items_cleared_of {n : Node}
    (hbody : ofRoot s n.cleared = (ofRoot s n).map (Item.mapNode Node.cleared))
    (hnested : nestedItems s n.cleared.children =
      (nestedItems s n.children).map (Item.mapNode Node.cleared)) :
    items s n.cleared = (items s n).map (Item.mapNode Node.cleared) := by
  have hkind := n.kind_cleared
  by_cases hmethod : n.kind = .method
  · rw [items_method s hmethod, items_method s (hkind.trans hmethod), methodName?_cleared]
    cases methodName? s n <;> rfl
  by_cases hsingleton : n.kind = .singletonMethod
  · rw [items_singletonMethod s hsingleton, items_singletonMethod s (hkind.trans hsingleton),
      methodName?_cleared]
    cases methodName? s n <;> rfl
  by_cases hclass : n.kind = .singletonClass
  · rw [items_singletonClass s hclass, items_singletonClass s (hkind.trans hclass),
      opensOnSelf_cleared, hbody, ← mapNodes_eq_map]
    rfl
  by_cases hn : isContainer n
  · rw [items_container s hn, items_container s ((isContainer_cleared n).trans hn),
      containerSegment_cleared, hbody, ← mapNodes_eq_map]
    rfl
  have hdirective := directive?_cleared s n
  cases hd : directive? s n with
  | some d =>
      rw [items_directive s hd, items_directive s (hdirective.trans hd), directiveItem_cleared]
      rfl
  | none =>
      rw [items_other s hmethod hsingleton hclass (by simpa using hn) hd,
        items_other s (hkind ▸ hmethod) (hkind ▸ hsingleton) (hkind ▸ hclass)
          (by simpa [isContainer_cleared] using hn) (hdirective.trans hd)]
      exact hnested

theorem flatMap_map_cleared {g : Node → List Item} {cs : List Node}
    (h : ∀ c ∈ cs, g c.cleared = (g c).map (Item.mapNode Node.cleared)) :
    (cs.map Node.cleared).flatMap g = (cs.flatMap g).map (Item.mapNode Node.cleared) := by
  induction cs with
  | nil => rfl
  | cons c cs ih =>
      obtain ⟨hc, hcs⟩ := List.forall_mem_cons.1 h
      rw [List.map_cons, List.flatMap_cons, List.flatMap_cons, List.map_append, hc, ih hcs]

/-- The outline of a statement, and what is nested in it. -/
theorem items_cleared_and_nestedItems (n : Node) :
    items s n.cleared = (items s n).map (Item.mapNode Node.cleared) ∧
      nestedItems s n.cleared.children =
        (nestedItems s n.children).map (Item.mapNode Node.cleared) := by
  induction n using Node.statement_induction with
  | step n ihcode ihstatements =>
    have hnested : nestedItems s n.cleared.children =
        (nestedItems s n.children).map (Item.mapNode Node.cleared) := by
      rw [nestedItems_eq, nestedItems_eq, ← Node.code, ← Node.code, Node.code_cleared]
      refine flatMap_map_cleared fun c hc => ?_
      obtain ⟨hitems, hbelow⟩ := ihcode c hc
      rw [isContainer_cleared, hitems, hbelow]
      split <;> rfl
    have hbody : ofRoot s n.cleared = (ofRoot s n).map (Item.mapNode Node.cleared) := by
      rw [ofRoot_eq_flatMap, ofRoot_eq_flatMap, Node.statements_cleared]
      exact flatMap_map_cleared fun c hc => (ihstatements c hc).1
    exact ⟨items_cleared_of s hbody hnested, hnested⟩

theorem ofRoot_cleared (root : Node) :
    ofRoot s root.cleared = mapNodes Node.cleared (ofRoot s root) := by
  rw [ofRoot_eq_flatMap, ofRoot_eq_flatMap, Node.statements_cleared, mapNodes_eq_map]
  exact flatMap_map_cleared fun c _ => (items_cleared_and_nestedItems s c).1

/-- **Clearing the remarks of a file clears the nodes of its definitions.** -/
theorem definitions_cleared (root : Node) :
    definitions s root.cleared = (definitions s root).map (Definition.mapNode Node.cleared) := by
  rw [definitions, definitions, ofRoot_cleared, definitionsOf_mapNodes Node.kind_cleared]

end Cleared

end RubyDoc.Outline
