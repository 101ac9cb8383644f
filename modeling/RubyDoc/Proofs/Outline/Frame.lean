import Mathlib.Data.List.Forall2
import RubyDoc.Proofs.Outline.Deed

/-!
# What a container leaves alone

Containers record their definitions in one list, and some calls go back to change what is recorded
there.  Here the members of one container are followed through a walk.  A body that enters the
container nowhere leaves its members alone (`membersOf_walkItems`); hence an outline and one that
lacks some containers record the same members, as long as the container itself is entered as often
(`Walk.Same.walkItems`).
-/

namespace RubyDoc.Syntax.Node

/-- Two nodes of one kind at one place of the text. -/
structure Twin (n n' : Node) : Prop where
  kind_eq : n'.kind = n.kind
  startByte_eq : n'.startByte = n.startByte
  endByte_eq : n'.endByte = n.endByte

end RubyDoc.Syntax.Node

namespace RubyDoc.Outline

open Syntax Analysis

/-! ## Containers entered -/

mutual

/-- The containers that the walk of an item enters, in order. -/
def enteredBy (path : Option Text) : Item → List Text
  | .singletonClass _ inner => entered path inner
  | .container segment inner =>
      let inside := joinContainer (path.getD []) segment
      inside :: entered (some inside) inner
  | _ => []

/-- The containers that the walk of a body enters, in order. -/
def entered (path : Option Text) : List Item → List Text
  | [] => []
  | item :: rest => enteredBy path item ++ entered path rest

end

/-! ## Bodies in bodies -/

/-- Does the item have no body of its own? -/
def Item.IsLeaf : Item → Prop
  | singletonClass _ _ | container _ _ => False
  | _ => True

/-- Does the deed walk no body of its own? -/
def Deed.IsLeaf : Deed → Prop
  | singletonClass _ _ | container _ _ => False
  | _ => True

theorem Item.IsLeaf.enteredBy {item : Item} (h : item.IsLeaf) (path : Option Text) :
    enteredBy path item = [] := by
  cases item <;> first | exact h.elim | rw [Outline.enteredBy] <;> nofun

theorem Item.IsLeaf.deeds {item : Item} (h : item.IsLeaf) : ∀ d ∈ item.deeds, d.IsLeaf := by
  intro d hd
  cases item with
  | visibilityOf v arguments =>
      obtain ⟨a, -, hd⟩ := List.mem_flatMap.1 hd
      cases a <;> simp only [Argument.visibilityDeeds, List.mem_cons, List.mem_append,
        List.mem_map, List.not_mem_nil, or_false] at hd
      · rcases hd with rfl | rfl <;> trivial
      · rcases hd with rfl | rfl <;> trivial
      · rcases hd with ⟨_, -, rfl⟩ | rfl <;> trivial
      · subst hd
        trivial
  | moduleFunctionsOf arguments =>
      obtain ⟨a, -, hd⟩ := List.mem_flatMap.1 hd
      cases a <;> simp only [Argument.functionDeeds, List.mem_cons, List.not_mem_nil,
        or_false] at hd
      all_goals rcases hd with rfl | rfl <;> trivial
  | classVisibilityOf v arguments =>
      obtain ⟨a, -, hd⟩ := List.mem_flatMap.1 hd
      cases a <;> simp only [Argument.classVisibilityDeeds, List.mem_cons, List.not_mem_nil,
        or_false] at hd
      · rcases hd with rfl | rfl <;> trivial
      · subst hd
        trivial
  | singletonClass | container => exact h.elim
  | _ =>
      obtain rfl := List.mem_singleton.1 hd
      trivial

/-- Induction along an outline and into its bodies. -/
theorem outline_induction {motive : List Item → Prop} (nil : motive [])
    (leaf : ∀ {item rest}, item.IsLeaf → motive rest → motive (item :: rest))
    (singletonClass : ∀ {onSelf inner rest}, motive inner → motive rest →
      motive (.singletonClass onSelf inner :: rest))
    (container : ∀ {segment inner rest}, motive inner → motive rest →
      motive (.container segment inner :: rest)) :
    ∀ outline, motive outline
  | [] => nil
  | .singletonClass _ inner :: rest =>
      singletonClass (outline_induction nil leaf singletonClass container inner)
        (outline_induction nil leaf singletonClass container rest)
  | .container _ inner :: rest =>
      container (outline_induction nil leaf singletonClass container inner)
        (outline_induction nil leaf singletonClass container rest)
  | .method _ _ :: rest | .singletonMethod _ _ :: rest | .attributes _ _ _ :: rest
  | .visibilityFromHere _ :: rest | .visibilityOf _ _ :: rest | .moduleFunctionsFromHere :: rest
  | .moduleFunctionsOf _ :: rest | .classVisibilityOf _ _ :: rest =>
      leaf trivial (outline_induction nil leaf singletonClass container rest)

/-! ## The members of one container -/

/-- The definitions among `found` that belong to the container `C`. -/
def membersOf (C : Text) (found : List Definition) : List Definition :=
  found.filter fun d => d.container = C

variable {C : Text} {path : Option Text}

theorem membersOf_cons_of_eq {d : Definition} (h : d.container = C) (found : List Definition) :
    membersOf C (d :: found) = d :: membersOf C found :=
  List.filter_cons_of_pos (by simpa using h)

theorem membersOf_cons_of_ne {d : Definition} (h : d.container ≠ C) (found : List Definition) :
    membersOf C (d :: found) = membersOf C found :=
  List.filter_cons_of_neg (by simpa using h)

/-! ## Changes to members found -/

/-- Two definitions that are the same but for their nodes, which are of one kind at one place. -/
def Definition.Twin (d d' : Definition) : Prop :=
  ∃ n, d.node.Twin n ∧ d' = { d with node := n }

/-- Changing by `f` what satisfies `p` concerns members of one container alone, leaves them there,
and does not look at more of a node than its kind. -/
structure IsChangeIn (container : Text) (p : Definition → Bool) (f : Definition → Definition) :
    Prop where
  container_eq : ∀ d, p d → d.container = container
  stays : ∀ d, (f d).container = d.container
  eq_of_twin : ∀ d d', d.Twin d' → p d' = p d
  twin : ∀ d d', d.Twin d' → (f d).Twin (f d')

theorem isChangeIn_promoted (container name : Text) (copy : Visibility) :
    IsChangeIn container (Walk.isPromotable container name) (Walk.promoted copy) where
  container_eq d h := by
    simp only [Walk.isPromotable, Bool.and_eq_true, decide_eq_true_eq] at h
    exact h.1.1.1.2
  stays _ := rfl
  eq_of_twin := by
    rintro d _ ⟨n, hn, rfl⟩
    simp only [Walk.isPromotable, hn.kind_eq, Definition.isMethod]
  twin := by
    rintro d _ ⟨n, hn, rfl⟩
    exact ⟨n, hn, rfl⟩

theorem isChangeIn_visibility (container name : Text) (v : Visibility) :
    IsChangeIn container (Walk.isClassMethod container name)
      (fun d => { d with visibility := v }) where
  container_eq d h := by
    simp only [Walk.isClassMethod, Bool.and_eq_true, decide_eq_true_eq] at h
    exact h.1.1.2
  stays _ := rfl
  eq_of_twin := by
    rintro d _ ⟨n, -, rfl⟩
    rfl
  twin := by
    rintro d _ ⟨n, hn, rfl⟩
    exact ⟨n, hn, rfl⟩

namespace IsChangeIn

variable {p : Definition → Bool} {f : Definition → Definition} {container : Text}

/-- A change to a member of one container leaves the members of another alone. -/
theorem membersOf_of_ne (hf : IsChangeIn container p f) (h : container ≠ C)
    (found : List Definition) : membersOf C (modifyFirst p f found) = membersOf C found := by
  induction found with
  | nil => rfl
  | cons d found ih =>
      rw [modifyFirst]
      split
      · rename_i hd
        have hne : d.container ≠ C := hf.container_eq d hd ▸ h
        rw [membersOf_cons_of_ne (by rwa [hf.stays]), membersOf_cons_of_ne hne]
      · by_cases hd : d.container = C
        · rw [membersOf_cons_of_eq hd, membersOf_cons_of_eq hd, ih]
        · rw [membersOf_cons_of_ne hd, membersOf_cons_of_ne hd, ih]

/-- A change to a member of a container can be made in the list of its members. -/
theorem membersOf_eq (hf : IsChangeIn C p f) (found : List Definition) :
    membersOf C (modifyFirst p f found) = modifyFirst p f (membersOf C found) := by
  induction found with
  | nil => rfl
  | cons d found ih =>
      rw [modifyFirst]
      split
      · rename_i hd
        have hC := hf.container_eq d hd
        rw [membersOf_cons_of_eq (by rw [hf.stays, hC]), membersOf_cons_of_eq hC, modifyFirst,
          if_pos hd]
      · rename_i hd
        by_cases hC : d.container = C
        · rw [membersOf_cons_of_eq hC, membersOf_cons_of_eq hC, modifyFirst, if_neg hd, ih]
        · rw [membersOf_cons_of_ne hC, membersOf_cons_of_ne hC, ih]

theorem forall₂ (hf : IsChangeIn container p f) {found found' : List Definition}
    (h : List.Forall₂ Definition.Twin found found') :
    List.Forall₂ Definition.Twin (modifyFirst p f found) (modifyFirst p f found') := by
  induction h with
  | nil => exact .nil
  | @cons d d' _ _ hd h ih =>
      rw [modifyFirst, modifyFirst, hf.eq_of_twin d d' hd]
      split
      · exact .cons (hf.twin d d' hd) h
      · exact .cons hd ih

end IsChangeIn

/-! ## The frame -/

/-- A deed in one container leaves the members of another alone. -/
theorem membersOf_run (hpath : containerOf path ≠ C) {d : Deed} (h : d.IsLeaf) (w : Walk) :
    membersOf C (d.run path w).found = membersOf C w.found := by
  cases d with
  | method node name =>
      rw [Deed.run, Walk.addMethod]
      split
      · exact membersOf_cons_of_ne hpath _
      · split <;> exact membersOf_cons_of_ne hpath _
  | singletonMethod node name => exact membersOf_cons_of_ne hpath _
  | attributes node access names =>
      rw [Deed.run, Walk.addAttributes]
      clear h
      induction names generalizing w with
      | nil => rfl
      | cons name names ih =>
          rw [List.foldl_cons, ih]
          exact membersOf_cons_of_ne hpath _
  | promote name => exact (isChangeIn_promoted _ _ _).membersOf_of_ne hpath _
  | setClassVisibility name v => exact (isChangeIn_visibility _ _ v).membersOf_of_ne hpath _
  | singletonClass | container => exact h.elim
  | _ => rfl

theorem membersOf_foldl_run (hpath : containerOf path ≠ C) {ds : List Deed}
    (h : ∀ d ∈ ds, d.IsLeaf) (w : Walk) :
    membersOf C (ds.foldl (Deed.run path) w).found = membersOf C w.found := by
  induction ds generalizing w with
  | nil => rfl
  | cons d ds ih =>
      obtain ⟨hd, hds⟩ := List.forall_mem_cons.1 h
      rw [List.foldl_cons, ih hds, membersOf_run hpath hd]

/-- **Frame.**  A body outside `C` that enters `C` nowhere leaves the members of `C` alone. -/
theorem membersOf_walkItems {outline : List Item} (hpath : containerOf path ≠ C)
    (h : C ∉ entered path outline) (w : Walk) :
    membersOf C (walkItems path outline w).found = membersOf C w.found := by
  induction outline using outline_induction generalizing path w with
  | nil => rw [walkItems]
  | @leaf item rest hleaf ih =>
      rw [entered, List.mem_append, not_or] at h
      rw [walkItems, ih hpath h.2, walkItem_eq_foldl, membersOf_foldl_run hpath hleaf.deeds]
  | @singletonClass onSelf inner rest ihinner ihrest =>
      rw [entered, enteredBy, List.mem_append, not_or] at h
      rw [walkItems, ihrest hpath h.2, walkItem]
      exact ihinner hpath h.1 _
  | @container segment inner rest ihinner ihrest =>
      rw [entered, enteredBy, List.mem_append, List.mem_cons, not_or, not_or] at h
      have hinside : containerOf (some (joinContainer (path.getD []) segment)) ≠ C :=
        Ne.symm h.1.1
      rw [walkItems, ihrest hpath h.2, walkItem]
      exact ihinner hinside h.1.2 _

/-! ## Two walks -/

/-- Two deeds that are the same but for their nodes, and walk no body of their own. -/
inductive Deed.Twin : Deed → Deed → Prop
  | method {n n' : Node} (h : n.Twin n') (name : Text) : Twin (.method n name) (.method n' name)
  | singletonMethod {n n' : Node} (h : n.Twin n') (name : Text) :
      Twin (.singletonMethod n name) (.singletonMethod n' name)
  | attributes {n n' : Node} (h : n.Twin n') (access : Access) (names : List Text) :
      Twin (.attributes n access names) (.attributes n' access names)
  | fromHere (v : Visibility) : Twin (.fromHere v) (.fromHere v)
  | declare (name : Text) (v : Visibility) : Twin (.declare name v) (.declare name v)
  | functionsFromHere : Twin .functionsFromHere .functionsFromHere
  | function (name : Text) : Twin (.function name) (.function name)
  | promote (name : Text) : Twin (.promote name) (.promote name)
  | setClassVisibility (name : Text) (v : Visibility) :
      Twin (.setClassVisibility name v) (.setClassVisibility name v)

/-- Two walks that say the same of `C`: what is declared here, and the members found. -/
structure Walk.Same (C : Text) (w w' : Walk) : Prop where
  context_eq : w'.context = w.context
  members : List.Forall₂ Definition.Twin (membersOf C w.found) (membersOf C w'.found)

namespace Walk.Same

variable {w w' : Walk}

theorem record (h : Same C w w') {d d' : Definition} (hd : d.Twin d') :
    Same C (w.record d) (w'.record d') := by
  refine ⟨h.context_eq, ?_⟩
  have hcontainer : d'.container = d.container := by
    obtain ⟨n, -, rfl⟩ := hd
    rfl
  simp only [Walk.record]
  by_cases hC : d.container = C
  · rw [membersOf_cons_of_eq hC, membersOf_cons_of_eq (by rwa [hcontainer])]
    exact .cons hd h.members
  · rw [membersOf_cons_of_ne hC, membersOf_cons_of_ne (by rwa [hcontainer])]
    exact h.members

theorem declaring (h : Same C w w') (f : Context → Context) :
    Same C (w.declaring f) (w'.declaring f) :=
  ⟨congrArg f h.context_eq, h.members⟩

theorem change (h : Same C w w') {p : Definition → Bool} {f : Definition → Definition}
    {container : Text} (hf : IsChangeIn container p f) :
    Same C { w with found := modifyFirst p f w.found }
      { w' with found := modifyFirst p f w'.found } := by
  refine ⟨h.context_eq, ?_⟩
  by_cases hC : container = C
  · subst hC
    rw [hf.membersOf_eq, hf.membersOf_eq]
    exact hf.forall₂ h.members
  · rw [hf.membersOf_of_ne hC, hf.membersOf_of_ne hC]
    exact h.members

theorem run (h : Same C w w') {d d' : Deed} (hd : d.Twin d') :
    Same C (d.run path w) (d'.run path w') := by
  have hcontext := h.context_eq
  cases hd with
  | method hn name =>
      simp only [Deed.run, addMethod, hcontext]
      split
      · exact h.record ⟨_, hn, rfl⟩
      · split <;> exact h.record ⟨_, hn, rfl⟩
  | singletonMethod hn name =>
      simp only [Deed.run, addSingletonMethod, hcontext]
      exact h.record ⟨_, hn, rfl⟩
  | attributes hn access names =>
      simp only [Deed.run, addAttributes]
      induction names generalizing w w' with
      | nil => exact h
      | cons name names ih =>
          rw [List.foldl_cons, List.foldl_cons, h.context_eq]
          exact ih (h.record ⟨_, hn, rfl⟩) h.context_eq
  | fromHere v => exact h.declaring fun c => c.declareDefault v
  | declare name v => exact h.declaring fun c => c.declare name v
  | functionsFromHere => exact h.declaring fun c => { c with moduleFunctionDefault := true }
  | function name =>
      exact h.declaring fun c => { c with moduleFunctionNames := name :: c.moduleFunctionNames }
  | promote name =>
      simp only [Deed.run, Walk.promote, hcontext]
      exact ⟨rfl, (h.change (isChangeIn_promoted _ name _)).members⟩
  | setClassVisibility name v => exact h.change (isChangeIn_visibility _ name v)

theorem foldl {ds ds' : List Deed} (hds : List.Forall₂ Deed.Twin ds ds') (h : Same C w w') :
    Same C (ds.foldl (Deed.run path) w) (ds'.foldl (Deed.run path) w') := by
  induction hds generalizing w w' with
  | nil => exact h
  | cons hd _ ih => exact ih (h.run hd)

end Walk.Same

/-! ## Outlines that lack containers -/

/-- The second outline is the first without some of its containers, at any depth.  The nodes of the
definitions may be others of the same kind at the same place. -/
inductive Pruned : List Item → List Item → Prop
  | nil : Pruned [] []
  | leaf {item item' : Item} {rest rest' : List Item}
      (h : List.Forall₂ Deed.Twin item.deeds item'.deeds) (hrest : Pruned rest rest')
      (hitem : item.IsLeaf) (hitem' : item'.IsLeaf) : Pruned (item :: rest) (item' :: rest')
  | dropped {segment : Text} {inner rest rest' : List Item} (hrest : Pruned rest rest') :
      Pruned (.container segment inner :: rest) rest'
  | singletonClass {onSelf : Bool} {inner inner' rest rest' : List Item}
      (hinner : Pruned inner inner') (hrest : Pruned rest rest') :
      Pruned (.singletonClass onSelf inner :: rest) (.singletonClass onSelf inner' :: rest')
  | container {segment : Text} {inner inner' rest rest' : List Item}
      (hinner : Pruned inner inner') (hrest : Pruned rest rest') :
      Pruned (.container segment inner :: rest) (.container segment inner' :: rest')

namespace Pruned

variable {outline outline' : List Item}

theorem append {more more' : List Item} (h : Pruned outline outline') (hmore : Pruned more more') :
    Pruned (outline ++ more) (outline' ++ more') := by
  induction h with
  | nil => exact hmore
  | leaf h _ hitem hitem' ih => exact .leaf h ih hitem hitem'
  | dropped _ ih => exact .dropped ih
  | singletonClass hinner _ _ ih => exact .singletonClass hinner ih
  | container hinner _ _ ih => exact .container hinner ih

/-- Without some of its containers, an outline enters no container more often. -/
theorem count_entered_le (h : Pruned outline outline') (path : Option Text) :
    (entered path outline').count C ≤ (entered path outline).count C := by
  induction h generalizing path with
  | nil => exact Nat.le_refl _
  | leaf _ _ hitem hitem' ih =>
      rw [entered, entered, hitem.enteredBy, hitem'.enteredBy]
      exact ih path
  | dropped _ ih =>
      rw [entered, List.count_append]
      exact Nat.le_trans (ih path) (Nat.le_add_left _ _)
  | singletonClass _ _ ihinner ihrest =>
      simp only [entered, enteredBy, List.count_append]
      exact Nat.add_le_add (ihinner path) (ihrest path)
  | container _ _ ihinner ihrest =>
      simp only [entered, enteredBy, List.count_append, List.count_cons]
      exact Nat.add_le_add (Nat.add_le_add_right (ihinner _) _) (ihrest path)

end Pruned

/-- **Two walks.**  An outline that lacks some containers records the same members of `C`, if it
lacks none that is `C` or has `C` inside. -/
theorem Walk.Same.walkItems {outline outline' : List Item} {w w' : Walk}
    (hpruned : Pruned outline outline')
    (hcount : (entered path outline').count C = (entered path outline).count C)
    (h : Same C w w') : Same C (walkItems path outline w) (walkItems path outline' w') := by
  induction hpruned generalizing path w w' with
  | nil =>
      rw [Outline.walkItems, Outline.walkItems]
      exact h
  | @leaf item item' rest rest' hdeeds _ hitem hitem' ih =>
      rw [entered, entered, hitem.enteredBy, hitem'.enteredBy] at hcount
      rw [Outline.walkItems, Outline.walkItems, walkItem_eq_foldl, walkItem_eq_foldl]
      exact ih hcount (h.foldl hdeeds)
  | @dropped segment inner rest rest' hrest ih =>
      rw [entered, List.count_append] at hcount
      -- The counts agree, so what is lacking is not `C` and has no `C` inside.
      have hle := hrest.count_entered_le path (C := C)
      have hout : C ∉ enteredBy path (.container segment inner) :=
        List.count_eq_zero.1 (by omega)
      rw [enteredBy, List.mem_cons, not_or] at hout
      rw [Outline.walkItems]
      refine ih (by omega) ⟨?_, ?_⟩
      · rw [walkItem]
        exact h.context_eq
      · rw [walkItem, membersOf_walkItems (Ne.symm hout.1) hout.2]
        exact h.members
  | @singletonClass onSelf inner inner' rest rest' hinner hrest ihinner ihrest =>
      simp only [entered, enteredBy, List.count_append] at hcount
      -- No part enters `C` more often than before, so equal sums have equal parts.
      have hinner_le := hinner.count_entered_le path (C := C)
      have hrest_le := hrest.count_entered_le path (C := C)
      rw [Outline.walkItems, Outline.walkItems, walkItem, walkItem, h.context_eq]
      let context := { w.context with onSelf := onSelf, classDefault := .pub }
      have hsame : Same C { w with context } { w' with context } := ⟨rfl, h.members⟩
      have hcount_inner : (entered path inner').count C = (entered path inner).count C := by omega
      exact ihrest (by omega) ⟨rfl, (ihinner hcount_inner hsame).members⟩
  | @container segment inner inner' rest rest' hinner hrest ihinner ihrest =>
      simp only [entered, enteredBy, List.count_append, List.count_cons] at hcount
      rw [Outline.walkItems, Outline.walkItems, walkItem, walkItem]
      generalize joinContainer (path.getD []) segment = inside at hcount ⊢
      have hinner_le := hinner.count_entered_le (some inside) (C := C)
      have hrest_le := hrest.count_entered_le path (C := C)
      have hsame : Same C { found := w.found } { found := w'.found } := ⟨rfl, h.members⟩
      have hcount_inner : (entered (some inside) inner').count C =
          (entered (some inside) inner).count C := by omega
      exact ihrest (by omega) ⟨h.context_eq, (ihinner hcount_inner hsame).members⟩

/-- The members of `C` that two outlines define, one without containers of the other. -/
theorem Pruned.definitionsOf {outline outline' : List Item} (h : Pruned outline outline')
    (hcount : (entered none outline').count C = (entered none outline).count C) :
    List.Forall₂ Definition.Twin (membersOf C (definitionsOf outline))
      (membersOf C (definitionsOf outline')) := by
  have hsame : Walk.Same C {} {} := ⟨rfl, .nil⟩
  rw [Outline.definitionsOf, Outline.definitionsOf, membersOf, membersOf, List.filter_reverse,
    List.filter_reverse, List.forall₂_reverse_iff]
  exact (hsame.walkItems h hcount).members

end RubyDoc.Outline
