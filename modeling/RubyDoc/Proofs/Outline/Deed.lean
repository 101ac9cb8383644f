import RubyDoc.Outline.Walk
import RubyDoc.Proofs.Outline.Statement

/-!
# What a body does, one deed after the other

An item of an outline may do several things: a visibility keyword with arguments declares names and
defines methods in turn.  Here every item is a list of deeds, each of which changes the walk once,
and walking a body is doing its deeds in order (`walkItems_eq_foldl`).  A body of its own, that of a
container or of a singleton class, stays a single deed.
-/

namespace RubyDoc.Outline

open Syntax

/-- One change of the walk. -/
inductive Deed where
  | method (node : Node) (name : Text)
  | singletonMethod (node : Node) (name : Text)
  | attributes (node : Node) (access : Access) (names : List Text)
  /-- Sets the visibility of the definitions that follow. -/
  | fromHere (v : Visibility)
  /-- Sets the visibility of the definitions of one name that follow. -/
  | declare (name : Text) (v : Visibility)
  | functionsFromHere
  | function (name : Text)
  | promote (name : Text)
  | setClassVisibility (name : Text) (v : Visibility)
  | singletonClass (onSelf : Bool) (items : List Item)
  | container (segment : Text) (items : List Item)

/-- Does one deed in the body of `path`. -/
def Deed.run (path : Option Text) (w : Walk) : Deed → Walk
  | method node name => w.addMethod (containerOf path) node name
  | singletonMethod node name => w.addSingletonMethod (containerOf path) node name
  | attributes node access names => w.addAttributes (containerOf path) node access names
  | fromHere v => w.declaring fun c => c.declareDefault v
  | declare name v => w.declaring fun c => c.declare name v
  | functionsFromHere => w.declaring fun c => { c with moduleFunctionDefault := true }
  | function name =>
      w.declaring fun c => { c with moduleFunctionNames := name :: c.moduleFunctionNames }
  | promote name => w.promote (containerOf path) name
  | setClassVisibility name v => w.setClassVisibility (containerOf path) name v
  | singletonClass onSelf items => walkItem path (.singletonClass onSelf items) w
  | container segment items => walkItem path (.container segment items) w

namespace Argument

/-- What a visibility keyword does with one argument. -/
def visibilityDeeds (v : Visibility) : Argument → List Deed
  | method node name => [.declare name v, .method node name]
  | singletonMethod node name => [.declare name v, .singletonMethod node name]
  | attributes node access names =>
      (names.map fun name => .declare name v) ++ [.attributes node access names]
  | named name => [.declare name v]

/-- What the making of module functions does with one argument. -/
def functionDeeds : Argument → List Deed
  | method node name => [.function name, .method node name]
  | named name => [.function name, .promote name]
  | singletonMethod _ _ | attributes _ _ _ => []

/-- What a keyword for the visibility of class methods does with one argument. -/
def classVisibilityDeeds (v : Visibility) : Argument → List Deed
  | singletonMethod node name => [.singletonMethod node name, .setClassVisibility name v]
  | named name => [.setClassVisibility name v]
  | method _ _ | attributes _ _ _ => []

end Argument

/-- The deeds of an item. -/
def Item.deeds : Item → List Deed
  | method node name => [.method node name]
  | singletonMethod node name => [.singletonMethod node name]
  | attributes node access names => [.attributes node access names]
  | visibilityFromHere v => [.fromHere v]
  | visibilityOf v arguments => arguments.flatMap (Argument.visibilityDeeds v)
  | moduleFunctionsFromHere => [.functionsFromHere]
  | moduleFunctionsOf arguments => arguments.flatMap Argument.functionDeeds
  | classVisibilityOf v arguments => arguments.flatMap (Argument.classVisibilityDeeds v)
  | singletonClass onSelf items => [.singletonClass onSelf items]
  | container segment items => [.container segment items]

/-- The deeds of a statement. -/
def deedsOf (s : Source) (statement : Node) : List Deed :=
  (items s statement).flatMap Item.deeds

/-! ## Walking is doing the deeds -/

variable {path : Option Text}

theorem foldl_run_declare (names : List Text) (v : Visibility) (w : Walk) :
    (names.map fun name => Deed.declare name v).foldl (Deed.run path) w =
      w.declaring fun c => names.foldl (fun c name => c.declare name v) c := by
  induction names generalizing w with
  | nil => rfl
  | cons name names ih =>
      rw [List.map_cons, List.foldl_cons, ih]
      rfl

theorem visibilityArgument_eq (v : Visibility) (w : Walk) (a : Argument) :
    w.visibilityArgument (containerOf path) v a =
      (a.visibilityDeeds v).foldl (Deed.run path) w := by
  cases a with
  | attributes node access names =>
      rw [Argument.visibilityDeeds, List.foldl_append, foldl_run_declare]
      rfl
  | _ => rfl

theorem moduleFunctionArgument_eq (w : Walk) (a : Argument) :
    w.moduleFunctionArgument (containerOf path) a = a.functionDeeds.foldl (Deed.run path) w := by
  cases a <;> rfl

theorem classVisibilityArgument_eq (v : Visibility) (w : Walk) (a : Argument) :
    w.classVisibilityArgument (containerOf path) v a =
      (a.classVisibilityDeeds v).foldl (Deed.run path) w := by
  cases a <;> rfl

theorem walkItem_eq_foldl (item : Item) (w : Walk) :
    walkItem path item w = item.deeds.foldl (Deed.run path) w := by
  cases item with
  | visibilityOf v arguments =>
      simp only [walkItem, Item.deeds, List.foldl_flatMap, ← visibilityArgument_eq]
  | moduleFunctionsOf arguments =>
      simp only [walkItem, Item.deeds, List.foldl_flatMap, ← moduleFunctionArgument_eq]
  | classVisibilityOf v arguments =>
      simp only [walkItem, Item.deeds, List.foldl_flatMap, ← classVisibilityArgument_eq]
  | singletonClass onSelf inner => rfl
  | container segment inner => rfl
  | _ => rw [walkItem]; rfl

/-- The walk of a body does the deeds of its items in order. -/
theorem walkItems_eq_foldl (items : List Item) (w : Walk) :
    walkItems path items w = (items.flatMap Item.deeds).foldl (Deed.run path) w := by
  induction items generalizing w with
  | nil => rw [walkItems]; rfl
  | cons item rest ih =>
      rw [walkItems, ih, List.flatMap_cons, List.foldl_append, walkItem_eq_foldl]

/-! ## The deeds of a body -/

/-- The walk of a body does the deeds of its statements in order. -/
theorem walkItems_ofRoot (s : Source) (n : Node) (w : Walk) :
    walkItems path (ofRoot s n) w =
      (n.statements.flatMap (deedsOf s)).foldl (Deed.run path) w := by
  rw [walkItems_eq_foldl, ofRoot_eq_flatMap, List.flatMap_assoc]
  rfl

/-! ## The deeds of a statement -/

variable (s : Source)

theorem deedsOf_directive {n : Node} {d : Directive} (h : directive? s n = some d) :
    deedsOf s n = (directiveItem s n d).deeds := by
  rw [deedsOf, items_directive s h, List.flatMap_singleton]

theorem deedsOf_method {n : Node} (h : n.kind = .method) :
    deedsOf s n = ((methodName? s n).map (Deed.method n)).toList := by
  rw [deedsOf, items_method s h]
  cases methodName? s n <;> rfl

theorem deedsOf_singletonMethod {n : Node} (h : n.kind = .singletonMethod) :
    deedsOf s n = ((methodName? s n).map (Deed.singletonMethod n)).toList := by
  rw [deedsOf, items_singletonMethod s h]
  cases methodName? s n <;> rfl

theorem deedsOf_singletonClass {n : Node} (h : n.kind = .singletonClass) :
    deedsOf s n = [.singletonClass (opensOnSelf n) (ofRoot s n)] := by
  rw [deedsOf, items_singletonClass s h]
  rfl

/-- A statement that is no directive is a definition, or opens bodies of their own. -/
theorem deedsOf_of_directive_none {n : Node} (h : directive? s n = none) {d : Deed}
    (hd : d ∈ deedsOf s n) :
    (∃ name, d = .method n name) ∨ (∃ name, d = .singletonMethod n name) ∨
      (∃ onSelf inner, d = .singletonClass onSelf inner) ∨
        ∃ segment inner, d = .container segment inner := by
  by_cases hmethod : n.kind = .method
  · rw [deedsOf_method s hmethod, Option.mem_toList, Option.map_eq_some_iff] at hd
    obtain ⟨name, -, rfl⟩ := hd
    exact Or.inl ⟨name, rfl⟩
  by_cases hsingleton : n.kind = .singletonMethod
  · rw [deedsOf_singletonMethod s hsingleton, Option.mem_toList,
      Option.map_eq_some_iff] at hd
    obtain ⟨name, -, rfl⟩ := hd
    exact Or.inr (Or.inl ⟨name, rfl⟩)
  by_cases hclass : n.kind = .singletonClass
  · rw [deedsOf_singletonClass s hclass, List.mem_singleton] at hd
    exact Or.inr (Or.inr (Or.inl ⟨_, _, hd⟩))
  have hcontainer : ∀ item ∈ items s n, item.IsContainer := by
    by_cases hc : isContainer n
    · rw [items_container s hc]
      intro item hitem
      exact ⟨_, _, List.mem_singleton.1 hitem⟩
    · rw [items_other s hmethod hsingleton hclass (by simpa using hc) h]
      exact fun item hitem => isContainer_of_mem_nestedItems s hitem
  obtain ⟨item, hitem, hd⟩ := List.mem_flatMap.1 hd
  obtain ⟨segment, inner, rfl⟩ := hcontainer item hitem
  exact Or.inr (Or.inr (Or.inr ⟨segment, inner, List.mem_singleton.1 hd⟩))

theorem deedsOf_visibility {n : Node} {v : Visibility}
    (h : directive? s n = some (.visibility v)) :
    deedsOf s n =
      if n.arguments.isEmpty then [.fromHere v]
      else (n.arguments.filterMap (argument? s)).flatMap (Argument.visibilityDeeds v) := by
  rw [deedsOf_directive s h, directiveItem]
  split <;> rfl

theorem deedsOf_moduleFunction {n : Node} (h : directive? s n = some .moduleFunction) :
    deedsOf s n =
      if n.arguments.isEmpty then [.functionsFromHere]
      else (n.arguments.filterMap (argument? s)).flatMap Argument.functionDeeds := by
  rw [deedsOf_directive s h, directiveItem]
  split <;> rfl

end RubyDoc.Outline
