import Mathlib.Data.List.Forall2
import Mathlib.Logic.Relation
import RubyDoc.Proofs.Outline.ModuleFunction

/-!
# What is found stays found

Containers, singleton classes and calls with definitions in place nest in each other, and all of
them share one list of definitions.  Here the walk is taken apart into single steps, with the bodies
that are open kept on a stack.  Every state that the steps reach lies on the way to what the walk
finds (`steps_walkItems`, `steps_end`).  A step adds to the definitions found; of those that are
there, it changes at most one, and only when it is the name of a method in a call that makes
functions of the module or sets the visibility of class methods (`reclassified_next`).  From this
come the frame and the invariant of all states that are reached (`reclassification_confined`).
-/

namespace RubyDoc.Outline

open Syntax Analysis

/-! ## The walk in steps -/

/-- One step in a body: an item of it, or one argument of a call in it. -/
inductive Step where
  | item (item : Item)
  | visibility (v : Visibility) (argument : Argument)
  | moduleFunction (argument : Argument)
  | classVisibility (v : Visibility) (argument : Argument)

/-- Does a step that opens nothing. -/
def Step.run (path : Option Text) (w : Walk) : Step → Walk
  | item i => walkItem path i w
  | visibility v a => w.visibilityArgument (containerOf path) v a
  | moduleFunction a => w.moduleFunctionArgument (containerOf path) a
  | classVisibility v a => w.classVisibilityArgument (containerOf path) v a

/-- A body that has been entered and not been left: where it is, what is declared in it, and what is
still to be done in it. -/
structure OpenBody where
  path : Option Text
  context : Context
  rest : List Step

/-- A state of the walk: the bodies that are open, the innermost first, and the definitions found,
the latest first. -/
structure Stage where
  bodies : List OpenBody
  found : List Definition

namespace Stage

/-- The walk of a file before its first step. -/
def start (outline : List Item) : Stage :=
  ⟨[⟨none, {}, outline.map .item⟩], []⟩

/-- The container and the step that come next, unless a body is at its end. -/
def step? : Stage → Option (Text × Step)
  | ⟨⟨path, _, step :: _⟩ :: _, _⟩ => some (containerOf path, step)
  | _ => none

/-- The next state.  A body at its end is left; a container or a singleton class is entered; a call
with arguments makes way for them. -/
def next? : Stage → Option Stage
  | ⟨[], _⟩ => none
  | ⟨⟨path, c, rest⟩ :: outer, found⟩ =>
      match rest with
      | [] => some ⟨outer, found⟩
      | .item (.singletonClass onSelf inner) :: rest =>
          some ⟨⟨path, { c with onSelf := onSelf, classDefault := .pub }, inner.map .item⟩ ::
            ⟨path, c, rest⟩ :: outer, found⟩
      | .item (.container segment inner) :: rest =>
          some ⟨⟨some (joinContainer (path.getD []) segment), {}, inner.map .item⟩ ::
            ⟨path, c, rest⟩ :: outer, found⟩
      | .item (.visibilityOf v arguments) :: rest =>
          some ⟨⟨path, c, arguments.map (.visibility v) ++ rest⟩ :: outer, found⟩
      | .item (.moduleFunctionsOf arguments) :: rest =>
          some ⟨⟨path, c, arguments.map .moduleFunction ++ rest⟩ :: outer, found⟩
      | .item (.classVisibilityOf v arguments) :: rest =>
          some ⟨⟨path, c, arguments.map (.classVisibility v) ++ rest⟩ :: outer, found⟩
      -- All other steps open nothing.
      | step :: rest =>
          let w := step.run path ⟨c, found⟩
          some ⟨⟨path, w.context, rest⟩ :: outer, w.found⟩

/-- Some steps lead from one state to the other. -/
def Steps : Stage → Stage → Prop :=
  Relation.ReflTransGen fun σ σ' => σ.next? = some σ'

/-- The states that the walk of an outline passes. -/
def Reachable (outline : List Item) (σ : Stage) : Prop :=
  (start outline).Steps σ

end Stage

/-! ## The steps are those of the walk -/

namespace Stage

variable {path : Option Text} {rest : List Step} {outer : List OpenBody} {w : Walk}

/-- The walk in an open body, with the steps that are still to be done there. -/
def inBody (path : Option Text) (rest : List Step) (outer : List OpenBody) (w : Walk) : Stage :=
  ⟨⟨path, w.context, rest⟩ :: outer, w.found⟩

/-- Arguments, one after the other. -/
theorem steps_arguments (step : Argument → Step)
    (hstep : ∀ a path rest outer w, (inBody path (step a :: rest) outer w).next? =
      some (inBody path rest outer ((step a).run path w))) (arguments : List Argument) :
    Steps (inBody path (arguments.map step ++ rest) outer w)
      (inBody path rest outer (arguments.foldl (fun w a => (step a).run path w) w)) := by
  induction arguments generalizing w with
  | nil => exact .refl
  | cons a arguments ih => exact .head (hstep ..) ih

theorem steps_leaf {item : Item} (h : item.IsLeaf) :
    Steps (inBody path (.item item :: rest) outer w)
      (inBody path rest outer (walkItem path item w)) := by
  cases item with
  | visibilityOf v arguments =>
      rw [walkItem]
      exact .head rfl (steps_arguments (.visibility v) (fun _ _ _ _ _ => rfl) arguments)
  | moduleFunctionsOf arguments =>
      rw [walkItem]
      exact .head rfl (steps_arguments .moduleFunction (fun _ _ _ _ _ => rfl) arguments)
  | classVisibilityOf v arguments =>
      rw [walkItem]
      exact .head rfl
        (steps_arguments (.classVisibility v) (fun _ _ _ _ _ => rfl) arguments)
  | singletonClass | container => exact h.elim
  | _ => exact .single rfl

/-- A body of its own: it is entered, walked to its end and left. -/
theorem steps_enter {step : Step} {inside : Option Text} {inner : List Item} {w' : Walk}
    (hnext : (inBody path (step :: rest) outer w).next? =
      some (inBody inside (inner.map .item) (⟨path, w.context, rest⟩ :: outer) w'))
    (hinner : ∀ outer, Steps (inBody inside (inner.map .item ++ []) outer w')
      (inBody inside [] outer (walkItems inside inner w'))) :
    Steps (inBody path (step :: rest) outer w)
      (inBody path rest outer { w with found := (walkItems inside inner w').found }) := by
  rw [List.append_nil] at hinner
  exact .head hnext ((hinner _).tail rfl)

/-- **The walk in steps.**  From the beginning of a body the steps lead to its end, with the context
and the definitions that the walk of the body gives. -/
theorem steps_walkItems (outline : List Item) :
    Steps (inBody path (outline.map .item ++ rest) outer w)
      (inBody path rest outer (walkItems path outline w)) := by
  -- What is left in the bodies around plays no part, so it varies in the induction.
  induction outline using outline_induction generalizing path rest outer w with
  | nil =>
      rw [walkItems]
      exact .refl
  | leaf hleaf ih =>
      rw [walkItems]
      exact (steps_leaf hleaf).trans ih
  | singletonClass ihinner ihitems =>
      rw [walkItems, walkItem]
      exact (steps_enter rfl fun _ => ihinner).trans ihitems
  | container ihinner ihitems =>
      rw [walkItems, walkItem]
      exact (steps_enter rfl fun _ => ihinner).trans ihitems

/-- From every state that is reached the steps lead to the end of the walk. -/
theorem steps_end {outline : List Item} {σ : Stage} (h : Reachable outline σ) :
    σ.Steps ⟨[], (walkItems none outline {}).found⟩ := by
  have hend : (start outline).Steps ⟨[], (walkItems none outline {}).found⟩ := by
    have hwalk := @steps_walkItems none [] [] {} outline
    rw [List.append_nil] at hwalk
    exact hwalk.tail rfl
  -- A state has one next state only, so one of the two runs goes through the other one's end.
  rcases Relation.ReflTransGen.total_of_right_unique
    (fun _ _ _ h h' => Option.some.inj (h.symm.trans h')) h hend with h | h
  · exact h
  · rcases h.cases_head with rfl | ⟨_, hnext, -⟩
    · exact .refl
    · cases hnext

end Stage

/-! ## Changes of one definition -/

/-- The definition keeps its node, kind, name, container and access; its scope is kept, or turned
from the instances to the container itself. -/
structure Definition.Keeps (r r' : Definition) : Prop where
  node_eq : r'.node = r.node
  name_eq : r'.name = r.name
  container_eq : r'.container = r.container
  isMethod_eq : r'.isMethod = r.isMethod
  access_eq : r'.access? = r.access?
  scope : r'.scope = r.scope ∨ r.scope = .onInstance ∧ r'.scope = .onClass

/-- The parts of a definition fit together: functions of a module are those that leave a copy, and
they are methods of the container itself written with `def`; attributes are those that have an
access. -/
structure Definition.IsCoherent (r : Definition) : Prop where
  function_iff : r.isModuleFunction ↔ r.copy?.isSome
  function : r.isModuleFunction → r.scope = .onClass ∧ r.isMethod ∧ r.node.kind = .method
  access_iff : r.access?.isSome ↔ ¬ r.isMethod

/-- The second list is the first with `f` applied to the first element that satisfies `p`, if there
is one. -/
inductive LatestChanged (p : Definition → Bool) (f : Definition → Definition) :
    List Definition → List Definition → Prop
  | none {found : List Definition} (h : ∀ r ∈ found, ¬ p r) : LatestChanged p f found found
  | latest (later : List Definition) {earlier : List Definition} {r : Definition}
      (hlater : ∀ x ∈ later, ¬ p x) (hr : p r) :
      LatestChanged p f (later ++ r :: earlier) (later ++ f r :: earlier)

namespace LatestChanged

variable {p : Definition → Bool} {f : Definition → Definition} {found found' : List Definition}

theorem modifyFirst (found : List Definition) :
    LatestChanged p f found (Outline.modifyFirst p f found) := by
  induction found with
  | nil => exact .none (by simp)
  | cons r found ih =>
      rw [Outline.modifyFirst]
      split
      · rename_i hr
        exact .latest [] (by simp) hr
      · rename_i hr
        generalize Outline.modifyFirst p f found = found' at ih
        cases ih with
        | none h => exact .none (List.forall_mem_cons.2 ⟨hr, h⟩)
        | latest later hlater hr' =>
            exact .latest (r :: later) (List.forall_mem_cons.2 ⟨hr, hlater⟩) hr'

theorem forall₂ {R : Definition → Definition → Prop} (hrefl : ∀ r, R r r)
    (hf : ∀ r, p r → R r (f r)) (h : LatestChanged p f found found') :
    List.Forall₂ R found found' := by
  have hsame : ∀ l : List Definition, List.Forall₂ R l l := fun l =>
    List.forall₂_same.2 fun r _ => hrefl r
  cases h with
  | none => exact hsame _
  | latest _ _ hr => exact List.rel_append (hsame _) (.cons (hf _ hr) (hsame _))

theorem forall_mem {Q : Definition → Prop} (hf : ∀ r, p r → Q r → Q (f r))
    (h : LatestChanged p f found found') (hfound : ∀ r ∈ found, Q r) : ∀ r ∈ found', Q r := by
  cases h with
  | none => exact hfound
  | latest _ _ hr =>
      rw [List.forall_mem_append, List.forall_mem_cons] at hfound ⊢
      exact ⟨hfound.1, hf _ hr hfound.2.1, hfound.2.2⟩

end LatestChanged

namespace Definition

variable {r : Definition} {C name : Text}

theorem Keeps.refl (r : Definition) : r.Keeps r :=
  ⟨rfl, rfl, rfl, rfl, rfl, .inl rfl⟩

theorem keeps_promoted (h : Walk.isPromotable C name r) (copy : Visibility) :
    r.Keeps (Walk.promoted copy r) := by
  simp only [Walk.isPromotable, isMethod, Bool.and_eq_true, decide_eq_true_eq] at h
  obtain ⟨⟨⟨⟨hmethod, -⟩, hscope⟩, -⟩, -⟩ := h
  cases hrole : r.role with
  | method copy' =>
      exact ⟨rfl, rfl, rfl, by simp [isMethod, hrole, Walk.promoted],
        by simp [access?, hrole, Walk.promoted], .inr ⟨hscope, rfl⟩⟩
  | _ => simp [hrole] at hmethod

theorem keeps_visibility (r : Definition) (v : Visibility) : r.Keeps { r with visibility := v } :=
  ⟨rfl, rfl, rfl, rfl, rfl, .inl rfl⟩

theorem isCoherent_promoted (h : Walk.isPromotable C name r) (copy : Visibility) :
    (Walk.promoted copy r).IsCoherent := by
  simp only [Walk.isPromotable, Bool.and_eq_true, decide_eq_true_eq] at h
  exact ⟨Iff.rfl, fun _ => ⟨rfl, rfl, h.2⟩, by simp [access?, isMethod, Walk.promoted]⟩

theorem IsCoherent.visibility (h : r.IsCoherent) (v : Visibility) :
    { r with visibility := v }.IsCoherent :=
  ⟨h.function_iff, h.function, h.access_iff⟩

end Definition

/-! ## What one step does to the definitions found -/

/-- What the next step does to the definitions found before it.  The name of a method in a call that
makes functions of the module changes the latest such method of the instances; in a call for the
visibility of class methods it changes the latest such method of the container itself.  Every other
step changes none. -/
def Reclassified : Option (Text × Step) → List Definition → List Definition → Prop
  | some (C, .moduleFunction (.named name)), found, found' =>
      ∃ copy, LatestChanged (Walk.isPromotable C name) (Walk.promoted copy) found found'
  | some (C, .classVisibility v (.named name)), found, found' =>
      LatestChanged (Walk.isClassMethod C name) (fun r => { r with visibility := v }) found found'
  | _, found, found' => found' = found

/-- A step adds coherent definitions to those found, and does no more to them than `Reclassified`
says. -/
def Adds (step : Option (Text × Step)) (found found' : List Definition) : Prop :=
  ∃ new old, found' = new ++ old ∧ (∀ r ∈ new, r.IsCoherent) ∧ Reclassified step found old

namespace Adds

variable {step : Option (Text × Step)} {found : List Definition}

theorem cons {r : Definition} (hr : r.IsCoherent) (h : Reclassified step found found) :
    Adds step found (r :: found) :=
  ⟨[r], found, rfl, by simpa using hr, h⟩

theorem of_reclassified {found' : List Definition} (h : Reclassified step found found') :
    Adds step found found' :=
  ⟨[], found', rfl, by simp, h⟩

end Adds

/-- Is the method that a step defines, if any, a plain definition? -/
def Step.MethodsAreDefs : Step → Prop
  | item i => i.MethodsAreDefs
  | visibility _ a | moduleFunction a | classVisibility _ a => a.MethodIsDef

section Run

variable {C name : Text} {node : Node}

/-- A method that is not made a function of its module. -/
theorem isCoherent_method (scope : Scope) (v : Visibility) :
    (⟨node, name, C, scope, v, .method none⟩ : Definition).IsCoherent :=
  ⟨Iff.rfl, nofun, by simp [Definition.access?, Definition.isMethod]⟩

theorem isCoherent_attribute (scope : Scope) (v : Visibility) (access : Access) :
    (⟨node, name, C, scope, v, .attribute access⟩ : Definition).IsCoherent :=
  ⟨Iff.rfl, nofun, by simp [Definition.access?, Definition.isMethod]⟩

theorem exists_addMethod (C name : Text) (hnode : node.kind = .method) (w : Walk) :
    ∃ r, (w.addMethod C node name).found = r :: w.found ∧ r.IsCoherent := by
  rw [Walk.addMethod]
  split
  · exact ⟨_, rfl, isCoherent_method _ _⟩
  · split
    · exact ⟨_, rfl, Iff.rfl, fun _ => ⟨rfl, rfl, hnode⟩,
        by simp [Definition.access?, Definition.isMethod]⟩
    · exact ⟨_, rfl, isCoherent_method _ _⟩

theorem exists_addAttributes (C : Text) (node : Node) (access : Access) (names : List Text)
    (w : Walk) :
    ∃ new, (w.addAttributes C node access names).found = new ++ w.found ∧
      ∀ r ∈ new, r.IsCoherent := by
  rw [Walk.addAttributes]
  induction names generalizing w with
  | nil => exact ⟨[], rfl, by simp⟩
  | cons name names ih =>
      obtain ⟨new, hfound, hnew⟩ := ih (w.record ⟨node, name, C, w.context.scope,
        w.context.attributeVisibility access name, .attribute access⟩)
      refine ⟨new ++ [⟨node, name, C, w.context.scope,
        w.context.attributeVisibility access name, .attribute access⟩], ?_, ?_⟩
      · rw [List.foldl_cons, hfound, List.append_assoc]
        rfl
      · rw [List.forall_mem_append]
        refine ⟨hnew, fun r hr => ?_⟩
        obtain rfl := List.mem_singleton.1 hr
        exact isCoherent_attribute _ _ access

theorem adds_visibilityArgument {a : Argument} (ha : a.MethodIsDef) (v : Visibility) (w : Walk) :
    Adds (some (C, .visibility v a)) w.found (w.visibilityArgument C v a).found := by
  cases a with
  | method node name =>
      obtain ⟨r, hfound, hr⟩ := exists_addMethod C name ha
        (w.declaring fun c => c.declare name v)
      rw [Walk.visibilityArgument, hfound]
      exact .cons hr rfl
  | singletonMethod node name => exact .cons (isCoherent_method _ _) rfl
  | attributes node access names =>
      obtain ⟨new, hfound, hnew⟩ := exists_addAttributes C node access names
        (w.declaring fun c => names.foldl (fun c name => c.declare name v) c)
      exact ⟨new, w.found, hfound, hnew, rfl⟩
  | named name => exact .of_reclassified rfl

theorem adds_moduleFunctionArgument {a : Argument} (ha : a.MethodIsDef) (w : Walk) :
    Adds (some (C, .moduleFunction a)) w.found (w.moduleFunctionArgument C a).found := by
  cases a with
  | method node name =>
      obtain ⟨r, hfound, hr⟩ := exists_addMethod C name ha
        (w.declaring fun c => { c with moduleFunctionNames := name :: c.moduleFunctionNames })
      rw [Walk.moduleFunctionArgument, hfound]
      exact .cons hr rfl
  | named name => exact .of_reclassified ⟨_, .modifyFirst _⟩
  | singletonMethod | attributes => exact .of_reclassified rfl

/-- The call with a definition in place sets the visibility of what has just been recorded. -/
theorem adds_classVisibilityArgument (a : Argument) (v : Visibility) (w : Walk) :
    Adds (some (C, .classVisibility v a)) w.found (w.classVisibilityArgument C v a).found := by
  cases a with
  | singletonMethod node name =>
      -- The method is in front of all others, so it is the one whose visibility is set.
      have hfound : (w.classVisibilityArgument C v (.singletonMethod node name)).found =
          ⟨node, name, C, .onClass, v, .method none⟩ :: w.found :=
        if_pos (by simp [Walk.isClassMethod, Definition.isMethod])
      rw [hfound]
      exact .cons (isCoherent_method _ _) rfl
  | named name => exact .of_reclassified (.modifyFirst _)
  | method | attributes => exact .of_reclassified rfl

/-- Does the item record or declare something by itself? -/
def Item.IsPlain : Item → Prop
  | method _ _ | singletonMethod _ _ | attributes _ _ _ | visibilityFromHere _
  | moduleFunctionsFromHere => True
  | visibilityOf _ _ | moduleFunctionsOf _ | classVisibilityOf _ _ | singletonClass _ _
  | container _ _ => False

theorem adds_walkItem (path : Option Text) {item : Item} (hitem : item.MethodsAreDefs)
    (hplain : item.IsPlain) (w : Walk) :
    Adds (some (C, .item item)) w.found (walkItem path item w).found := by
  cases item with
  | method node name =>
      obtain ⟨r, hfound, hr⟩ := exists_addMethod (containerOf path) name hitem w
      rw [walkItem, hfound]
      exact .cons hr rfl
  | singletonMethod node name =>
      rw [walkItem]
      exact .cons (isCoherent_method _ _) rfl
  | attributes node access names =>
      obtain ⟨new, hfound, hnew⟩ := exists_addAttributes (containerOf path) node access names w
      rw [walkItem]
      exact ⟨new, w.found, hfound, hnew, rfl⟩
  | visibilityFromHere | moduleFunctionsFromHere =>
      rw [walkItem]
      exact .of_reclassified rfl
  | _ => exact hplain.elim

end Run

/-- Are the methods in what is still to be done plain definitions? -/
def Stage.PendingAreDefs (σ : Stage) : Prop :=
  ∀ body ∈ σ.bodies, ∀ step ∈ body.rest, step.MethodsAreDefs

/-- **One step.**  Whatever comes next, it adds coherent definitions, and changes at most the one
that `Reclassified` names. -/
theorem adds_next {σ σ' : Stage} (hdefs : σ.PendingAreDefs) (hnext : σ.next? = some σ') :
    Adds σ.step? σ.found σ'.found := by
  obtain ⟨_ | ⟨⟨path, c, _ | ⟨step, rest⟩⟩, outer⟩, found⟩ := σ
  · cases hnext
  · obtain rfl := Option.some.inj hnext
    exact .of_reclassified rfl
  have hstep : step.MethodsAreDefs := hdefs _ List.mem_cons_self _ List.mem_cons_self
  cases step with
  | visibility v a =>
      obtain rfl := Option.some.inj hnext
      exact adds_visibilityArgument hstep v ⟨c, found⟩
  | moduleFunction a =>
      obtain rfl := Option.some.inj hnext
      exact adds_moduleFunctionArgument hstep ⟨c, found⟩
  | classVisibility v a =>
      obtain rfl := Option.some.inj hnext
      exact adds_classVisibilityArgument a v ⟨c, found⟩
  | item item =>
      cases item with
      -- These only open what is in them.
      | visibilityOf | moduleFunctionsOf | classVisibilityOf | singletonClass | container =>
          obtain rfl := Option.some.inj hnext
          exact .of_reclassified rfl
      | _ =>
          obtain rfl := Option.some.inj hnext
          exact adds_walkItem path hstep trivial ⟨c, found⟩

theorem methodsAreDefs_items_map {outline : List Item} (h : MethodsAreDefs outline) :
    ∀ step ∈ outline.map Step.item, step.MethodsAreDefs := by
  rw [List.forall_mem_map]
  exact methodsAreDefs_iff.1 h

/-- What is still to be done after a step is what was to be done before it. -/
theorem Stage.PendingAreDefs.next {σ σ' : Stage} (h : σ.PendingAreDefs)
    (hnext : σ.next? = some σ') : σ'.PendingAreDefs := by
  obtain ⟨_ | ⟨⟨path, c, _ | ⟨step, rest⟩⟩, outer⟩, found⟩ := σ
  · cases hnext
  · obtain rfl := Option.some.inj hnext
    exact (List.forall_mem_cons.1 h).2
  obtain ⟨hbody, houter⟩ := List.forall_mem_cons.1 h
  obtain ⟨hstep, hrest⟩ := List.forall_mem_cons.1 hbody
  have harguments : ∀ {arguments : List Argument} {step : Argument → Step},
      (∀ a ∈ arguments, (step a).MethodsAreDefs) →
      ∀ x ∈ arguments.map step ++ rest, x.MethodsAreDefs := fun h =>
    List.forall_mem_append.2 ⟨List.forall_mem_map.2 h, hrest⟩
  cases step with
  | visibility | moduleFunction | classVisibility =>
      obtain rfl := Option.some.inj hnext
      exact List.forall_mem_cons.2 ⟨hrest, houter⟩
  | item item =>
      cases item with
      | singletonClass | container =>
          obtain rfl := Option.some.inj hnext
          exact List.forall_mem_cons.2
            ⟨methodsAreDefs_items_map hstep, List.forall_mem_cons.2 ⟨hrest, houter⟩⟩
      | visibilityOf | moduleFunctionsOf | classVisibilityOf =>
          obtain rfl := Option.some.inj hnext
          exact List.forall_mem_cons.2 ⟨harguments hstep, houter⟩
      | _ =>
          obtain rfl := Option.some.inj hnext
          exact List.forall_mem_cons.2 ⟨hrest, houter⟩

/-! ## What all steps keep -/

namespace Reclassified

variable {step : Option (Text × Step)} {found found' : List Definition}

/-- What a step changes is one definition at most, which keeps what it is. -/
theorem latestChanged (h : Reclassified step found found') :
    ∃ p f, LatestChanged p f found found' ∧
      ∀ r, p r → r.Keeps (f r) ∧ (r.IsCoherent → (f r).IsCoherent) := by
  unfold Reclassified at h
  split at h
  · obtain ⟨copy, h⟩ := h
    exact ⟨_, _, h, fun r hr =>
      ⟨Definition.keeps_promoted hr copy, fun _ => Definition.isCoherent_promoted hr copy⟩⟩
  · exact ⟨_, _, h, fun r _ => ⟨r.keeps_visibility _, fun hr => hr.visibility _⟩⟩
  · subst h
    exact ⟨fun _ => false, id, .none (by simp), by simp⟩

theorem keeps (h : Reclassified step found found') :
    List.Forall₂ Definition.Keeps found found' := by
  obtain ⟨p, f, hchanged, hf⟩ := h.latestChanged
  exact hchanged.forall₂ .refl fun r hr => (hf r hr).1

theorem isCoherent (h : Reclassified step found found') (hfound : ∀ r ∈ found, r.IsCoherent) :
    ∀ r ∈ found', r.IsCoherent := by
  obtain ⟨p, f, hchanged, hf⟩ := h.latestChanged
  exact hchanged.forall_mem (fun r hr => (hf r hr).2) hfound

end Reclassified

/-- What holds of every state that the walk of a file passes. -/
structure Stage.IsSound (σ : Stage) : Prop where
  pendingAreDefs : σ.PendingAreDefs
  isCoherent : ∀ r ∈ σ.found, r.IsCoherent

namespace Stage.IsSound

theorem start {outline : List Item} (h : MethodsAreDefs outline) : (start outline).IsSound where
  pendingAreDefs body hbody := by
    obtain rfl := List.mem_singleton.1 hbody
    exact methodsAreDefs_items_map h
  isCoherent := by simp [Stage.start]

theorem next {σ σ' : Stage} (h : σ.IsSound) (hnext : σ.next? = some σ') : σ'.IsSound where
  pendingAreDefs := h.pendingAreDefs.next hnext
  isCoherent := by
    obtain ⟨new, old, hfound, hnew, hold⟩ := adds_next h.pendingAreDefs hnext
    rw [hfound, List.forall_mem_append]
    exact ⟨hnew, hold.isCoherent h.isCoherent⟩

theorem of_reachable {outline : List Item} (houtline : MethodsAreDefs outline) {σ : Stage}
    (h : σ.Reachable outline) : σ.IsSound := by
  induction h with
  | refl => exact .start houtline
  | tail _ hnext ih => exact ih.next hnext

end Stage.IsSound

/-- **Reclassification is confined.**  Every state that the steps through a file reach lies on the
way to the definitions of the file.  There, a definition is a function of its module iff it leaves
a copy, and then it is a method of the container itself written with `def`; it has an access iff it
is an attribute.  The two equivalences are carried by the type `Role`; that such a method belongs
to the container itself and is written with `def` is an invariant of the steps.  The next step,
whatever it is, may put definitions in front of those found so far.  Each of these keeps its place,
node, kind, name, container and access, and its scope unless it turns from the instances to the
container; one at most is changed, and only by a name in a call that makes functions of the module
or sets the visibility of class methods: the latest one of the current container that the name
stands for. -/
theorem reclassification_confined (s : Source) (root : Node) {σ : Stage}
    (h : σ.Reachable (ofRoot s root)) :
    σ.Steps ⟨[], (definitions s root).reverse⟩ ∧ (∀ r ∈ σ.found, r.IsCoherent) ∧
      ∀ σ', σ.next? = some σ' → ∃ new old, σ'.found = new ++ old ∧
        List.Forall₂ Definition.Keeps σ.found old ∧ Reclassified σ.step? σ.found old := by
  have hsound := Stage.IsSound.of_reachable (methodsAreDefs_ofRoot s root) h
  refine ⟨?_, hsound.isCoherent, fun σ' hnext => ?_⟩
  · rw [definitions, definitionsOf, List.reverse_reverse]
    exact Stage.steps_end h
  · obtain ⟨new, old, hfound, -, hold⟩ := adds_next hsound.pendingAreDefs hnext
    exact ⟨new, old, hfound, hold.keeps, hold⟩

/-- A file with a module of these statements. -/
def goFile (statements : List Node) : Node :=
  ⟨.program, none, 0, 0, 0, true, false, false, [goModule statements]⟩

theorem IsGoText.ofRoot_goFile {s : Source} {v : Visibility} {word stop start call : Nat}
    (h : IsGoText s v word stop start call) (segment : Text)
    (hsegment : containerSegment s (goModule [bareWord word stop, goDef start, goCall call]) =
      segment) :
    ofRoot s (goFile [bareWord word stop, goDef start, goCall call]) =
      [.container segment [.visibilityFromHere v, .method (goDef start) (Text.ofString "go"),
        .moduleFunctionsOf [.named (Text.ofString "go")]]] := by
  have hword : items s (bareWord word stop) = [.visibilityFromHere v] := by
    rw [items_directive s h.word_eq]
    rfl
  have hdef : items s (goDef start) = [.method (goDef start) (Text.ofString "go")] := by
    rw [items_method s rfl, h.name_eq]
    rfl
  have hcall : items s (goCall call) = [.moduleFunctionsOf [.named (Text.ofString "go")]] := by
    obtain ⟨hdirective, a, harguments, hmethod, hname⟩ := h.calls
    rw [items_directive s hdirective, directiveItem, harguments]
    simp [argument?_of_symbolName? hmethod hname]
  have hfile : (goFile [bareWord word stop, goDef start, goCall call]).statements =
      [goModule [bareWord word stop, goDef start, goCall call]] := rfl
  have hmodule : (goModule [bareWord word stop, goDef start, goCall call]).statements =
      [bareWord word stop, goDef start, goCall call] := rfl
  rw [ofRoot_eq_flatMap, hfile, List.flatMap_singleton, items_container s rfl, hsegment,
    ofRoot_eq_flatMap, hmodule]
  simp only [List.flatMap_cons, List.flatMap_nil, hword, hdef, hcall, List.append_nil,
    List.cons_append, List.nil_append]

/-- A method below `private`, and a call for it after it. -/
def goThenCall : Source :=
  .ofText "module M\nprivate\ndef go\nend\nmodule_function :go\nend\n"

/-- The call turns the method that is found into a function of the module. -/
theorem reclassification_confined_go :
    ∃ σ σ' : Stage, ∃ r r', σ.Reachable
        (ofRoot goThenCall (goFile [bareWord 9 16, goDef 17, goCall 28])) ∧
      σ.next? = some σ' ∧ σ.found = [r] ∧ σ'.found = [r'] ∧ r.IsCoherent ∧ r.Keeps r' ∧
      r.scope = .onInstance ∧ r'.scope = .onClass ∧ r'.isModuleFunction := by
  let r : Definition :=
    ⟨goDef 17, Text.ofString "go", Text.ofString "M", .onInstance, .priv, .method none⟩
  let σ : Stage := ⟨[⟨some (Text.ofString "M"), { instanceDefault := .priv },
    [.moduleFunction (.named (Text.ofString "go"))]⟩, ⟨none, {}, []⟩], [r]⟩
  have hgo : IsGoText goThenCall .priv 9 16 17 28 :=
    ⟨by decide, by decide, by decide, _, rfl, by decide, by decide⟩
  have hreachable :
      σ.Reachable (ofRoot goThenCall (goFile [bareWord 9 16, goDef 17, goCall 28])) := by
    rw [hgo.ofRoot_goFile (Text.ofString "M") (by decide)]
    exact .head rfl (.head rfl (.head rfl (.single rfl)))
  obtain ⟨-, hcoherent, hnext⟩ := reclassification_confined goThenCall _ hreachable
  obtain ⟨new, old, hfound, hkeeps, -⟩ := hnext
    ⟨[⟨some (Text.ofString "M"), { instanceDefault := .priv, moduleFunctionNames :=
      [Text.ofString "go"] }, []⟩, ⟨none, {}, []⟩], [Walk.promoted .priv r]⟩ rfl
  refine ⟨σ, _, r, Walk.promoted .priv r, hreachable, rfl, rfl, rfl, hcoherent r (by simp [σ]), ?_,
    rfl, rfl, rfl⟩
  -- As many definitions are kept as were found, so the next state has no more.
  have hlength : old.length = 1 := hkeeps.length_eq.symm
  obtain ⟨rfl, rfl⟩ : new = [] ∧ old = [Walk.promoted .priv r] := by
    cases new with
    | nil => exact ⟨rfl, hfound.symm⟩
    | cons _ new =>
        have hcount : 1 = (new.length + old.length) + 1 := by
          simpa using congrArg List.length hfound
        omega
  exact (List.forall₂_cons.1 hkeeps).1

end RubyDoc.Outline
