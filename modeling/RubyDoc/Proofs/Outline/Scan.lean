import Mathlib.Data.List.Induction
import RubyDoc.Proofs.Outline.Deed

/-!
# What is declared, by a backward scan

The walk carries a context forward; here each part of it is read off the deeds by looking backward
from where the walk stands.  The visibility of a name is the one declared last
(`lookup_names_foldl`), the default the one set last (`default_foldl`), and the making of module
functions is on if nothing ended it since it was last switched on (`functionDefault_foldl`).
-/

namespace RubyDoc.Outline

open Syntax

/-- The answer of the last element that has one. -/
def latest {α β : Type} (f : α → Option β) (l : List α) : Option β :=
  l.reverse.findSome? f

section Latest

variable {α β γ : Type} {f : α → Option β}

theorem latest_concat (l : List α) (a : α) : latest f (l ++ [a]) = (f a).or (latest f l) := by
  rw [latest, List.reverse_append, List.reverse_singleton, List.singleton_append,
    List.findSome?_cons]
  cases f a <;> rfl

theorem latest_append (l m : List α) : latest f (l ++ m) = (latest f m).or (latest f l) := by
  rw [latest, List.reverse_append, List.findSome?_append]
  rfl

theorem latest_flatMap (g : γ → List α) (l : List γ) :
    latest f (l.flatMap g) = latest (fun c => latest f (g c)) l := by
  induction l using List.reverseRecOn with
  | nil => rfl
  | append_singleton l c ih =>
      rw [List.flatMap_append, List.flatMap_singleton, latest_append, latest_concat, ih]

theorem latest_eq_none_iff {l : List α} : latest f l = none ↔ ∀ a ∈ l, f a = none := by
  simp [latest]

theorem latest_eq_some_iff {l : List α} {b : β} :
    latest f l = some b ↔
      ∃ l₁ a l₂, l = l₁ ++ a :: l₂ ∧ f a = some b ∧ ∀ x ∈ l₂, f x = none := by
  rw [latest, List.findSome?_eq_some_iff]
  constructor
  · rintro ⟨l₂, a, l₁, heq, ha, hl₂⟩
    refine ⟨l₁.reverse, a, l₂.reverse, ?_, ha, fun x hx => hl₂ x (List.mem_reverse.1 hx)⟩
    rw [← List.reverse_reverse l, heq]
    simp
  · rintro ⟨l₁, a, l₂, rfl, ha, hl₂⟩
    exact ⟨l₂.reverse, a, l₁.reverse, by simp, ha, fun x hx => hl₂ x (List.mem_reverse.1 hx)⟩

/-- Carrying a value forward from one step to the next ends where looking backward finds it. -/
theorem foldl_eq_latest {σ : Type} {step : σ → α → σ} (view : σ → Option β)
    (hstep : ∀ c a, view (step c a) = (f a).or (view c)) (l : List α) (c : σ) :
    view (l.foldl step c) = (latest f l).or (view c) := by
  induction l using List.reverseRecOn with
  | nil => rfl
  | append_singleton l a ih =>
      rw [List.foldl_append, List.foldl_cons, List.foldl_nil, hstep, ih, latest_concat,
        Option.or_assoc]

/-- The latest of answers that do not depend on who gives them. -/
theorem latest_ite (p : α → Bool) (b : β) (l : List α) :
    latest (fun a => if p a then some b else none) l = if l.any p then some b else none := by
  induction l with
  | nil => rfl
  | cons a l ih =>
      rw [← List.singleton_append, latest_append, ih, List.any_append, List.any_cons, List.any_nil,
        Bool.or_false]
      cases hl : l.any p <;> cases ha : p a <;> simp [latest, ha]

theorem flatMap_filterMap (g : α → Option β) (h : β → List γ) (l : List α) :
    (l.filterMap g).flatMap h = l.flatMap fun a => (g a).toList.flatMap h := by
  induction l with
  | nil => rfl
  | cons a l ih =>
      rw [List.filterMap_cons, List.flatMap_cons, ← ih]
      cases g a <;> simp

/-- An element of a concatenation of lists stands in one of them. -/
theorem flatMap_eq_append_cons {g : γ → List α} {l : List γ} {e t : List α} {x : α}
    (h : l.flatMap g = e ++ x :: t) :
    ∃ l₁ c l₂ p q, l = l₁ ++ c :: l₂ ∧ g c = p ++ x :: q ∧ e = l₁.flatMap g ++ p := by
  induction l generalizing e with
  | nil => simp at h
  | cons c l ih =>
      rw [List.flatMap_cons] at h
      rcases List.append_eq_append_iff.1 h with ⟨more, rfl, hrest⟩ | ⟨more, hc, hrest⟩
      · obtain ⟨l₁, c', l₂, p, q, rfl, hc', rfl⟩ := ih hrest
        exact ⟨c :: l₁, c', l₂, p, q, rfl, hc', by simp⟩
      · cases more with
        | nil =>
            obtain ⟨l₁, c', l₂, p, q, rfl, hc', hp⟩ := @ih [] (by simpa using hrest.symm)
            obtain ⟨hl₁, rfl⟩ := List.append_eq_nil_iff.1 hp.symm
            refine ⟨c :: l₁, c', l₂, [], q, rfl, hc', ?_⟩
            rw [List.flatMap_cons, hl₁, hc]
            simp
        | cons y more =>
            obtain ⟨rfl, -⟩ := List.cons.inj hrest
            exact ⟨[], c, l, e, more, rfl, hc, rfl⟩

end Latest

namespace Context

/-- The names that are declared where definitions here belong. -/
def names (c : Context) : List (Text × Visibility) :=
  if c.onSelf then c.classNames else c.instanceNames

/-- The visibility here of what is not declared by name. -/
def default (c : Context) : Visibility :=
  if c.onSelf then c.classDefault else c.instanceDefault

end Context

namespace Deed

/-- What a deed does to the context. -/
def onContext (c : Context) : Deed → Context
  | fromHere v => c.declareDefault v
  | declare name v => c.declare name v
  | functionsFromHere => { c with moduleFunctionDefault := true }
  | function name => { c with moduleFunctionNames := name :: c.moduleFunctionNames }
  | method _ _ | singletonMethod _ _ | attributes _ _ _ | promote _ | setClassVisibility _ _
  | singletonClass _ _ | container _ _ => c

/-- The visibility that a deed declares for a name. -/
def declared? (name : Text) : Deed → Option Visibility
  | declare n v => if n = name then some v else none
  | _ => none

/-- The visibility that a deed sets for all that follows. -/
def fromHere? : Deed → Option Visibility
  | fromHere v => some v
  | _ => none

/-- Whether module functions are made after a deed, if it says so. -/
def functions? : Deed → Option Bool
  | functionsFromHere => some true
  | fromHere _ => some false
  | _ => none

theorem context_run (path : Option Text) (w : Walk) (d : Deed) :
    (d.run path w).context = d.onContext w.context := by
  cases d with
  | method node name =>
      rw [run, Walk.addMethod, onContext]
      split
      · rfl
      · split <;> rfl
  | attributes node access names =>
      rw [run, Walk.addAttributes, onContext]
      induction names generalizing w with
      | nil => rfl
      | cons name names ih => exact ih _
  | _ => rfl

variable {path : Option Text}

/-- A body takes the context as far as its deeds take it. -/
theorem context_foldl (ds : List Deed) (w : Walk) :
    (ds.foldl (run path) w).context = ds.foldl onContext w.context := by
  induction ds generalizing w with
  | nil => rfl
  | cons d ds ih => rw [List.foldl_cons, ih, context_run, List.foldl_cons]

@[simp] theorem onSelf_onContext (c : Context) (d : Deed) : (d.onContext c).onSelf = c.onSelf := by
  cases d <;> simp only [onContext, Context.declare, Context.declareDefault]
  all_goals split <;> rfl

theorem onSelf_foldl (ds : List Deed) (c : Context) :
    (ds.foldl onContext c).onSelf = c.onSelf := by
  induction ds generalizing c with
  | nil => rfl
  | cons d ds ih => rw [List.foldl_cons, ih, onSelf_onContext]

/-! ## Names and defaults -/

theorem names_onContext (c : Context) (d : Deed) (name : Text) :
    (d.onContext c).names.lookup name = (d.declared? name).or (c.names.lookup name) := by
  rw [Context.names, Context.names, onSelf_onContext]
  cases d with
  | declare n v =>
      -- The declaration goes where definitions here belong, in front of the others.
      by_cases hn : n = name
      · subst hn
        cases hself : c.onSelf <;> simp [onContext, Context.declare, declared?, hself]
      · have hne : (name == n) = false := beq_eq_false_iff_ne.2 (Ne.symm hn)
        cases hself : c.onSelf <;>
          simp [onContext, Context.declare, declared?, hself, hn, List.lookup_cons, hne]
  | fromHere v =>
      simp only [onContext, Context.declareDefault, declared?, Option.none_or]
      split <;> simp_all
  | _ => rfl

/-- The visibility of a name is the one declared last. -/
theorem lookup_names_foldl (ds : List Deed) (c : Context) (name : Text) :
    (ds.foldl onContext c).names.lookup name =
      (latest (declared? name) ds).or (c.names.lookup name) :=
  foldl_eq_latest (fun c => c.names.lookup name) (names_onContext · · name) ds c

theorem default_onContext (c : Context) (d : Deed) :
    some (d.onContext c).default = d.fromHere?.or (some c.default) := by
  rw [Context.default, Context.default, onSelf_onContext]
  cases d with
  | fromHere v =>
      cases hself : c.onSelf <;> simp [onContext, Context.declareDefault, fromHere?, hself]
  | declare n v =>
      simp only [onContext, Context.declare, fromHere?, Option.none_or]
      split <;> simp_all
  | _ => rfl

/-- The default is the one set last. -/
theorem default_foldl (ds : List Deed) (c : Context) :
    (ds.foldl onContext c).default = (latest fromHere? ds).getD c.default := by
  have h := foldl_eq_latest (fun c => some c.default) default_onContext ds c
  rw [Option.or_some] at h
  exact Option.some.inj h

/-! ## Outside singleton classes -/

/-- Outside singleton classes nothing is said about members of the container itself. -/
theorem class_onContext {c : Context} (hc : c.onSelf = false) (d : Deed) :
    (d.onContext c).classNames = c.classNames ∧ (d.onContext c).classDefault = c.classDefault := by
  cases d <;> simp [onContext, Context.declare, Context.declareDefault, hc]

theorem class_foldl {c : Context} (hc : c.onSelf = false) (ds : List Deed) :
    (ds.foldl onContext c).classNames = c.classNames ∧
      (ds.foldl onContext c).classDefault = c.classDefault := by
  induction ds generalizing c with
  | nil => exact ⟨rfl, rfl⟩
  | cons d ds ih =>
      obtain ⟨hnames, hdefault⟩ := class_onContext hc d
      rw [List.foldl_cons, ← hnames, ← hdefault]
      exact ih (by rw [onSelf_onContext, hc])

theorem functionDefault_onContext {c : Context} (hc : c.onSelf = false) (d : Deed) :
    (d.onContext c).moduleFunctionDefault = d.functions?.getD c.moduleFunctionDefault := by
  cases d <;> simp [onContext, Context.declare, Context.declareDefault, functions?, hc]

/-- Module functions are made if nothing ended it since it was last switched on. -/
theorem functionDefault_foldl {c : Context} (hc : c.onSelf = false) (ds : List Deed) :
    (ds.foldl onContext c).moduleFunctionDefault =
      (latest functions? ds).getD c.moduleFunctionDefault := by
  induction ds using List.reverseRecOn with
  | nil => rfl
  | append_singleton ds d ih =>
      rw [List.foldl_append, List.foldl_cons, List.foldl_nil, latest_concat,
        functionDefault_onContext (by rw [onSelf_foldl, hc]), ih]
      cases d.functions? <;> rfl

theorem mem_functionNames_onContext (c : Context) (d : Deed) (name : Text) :
    name ∈ (d.onContext c).moduleFunctionNames ↔
      d = .function name ∨ name ∈ c.moduleFunctionNames := by
  cases d with
  | function n => simp [onContext, eq_comm]
  | declare n v => simp only [onContext, Context.declare]; split <;> simp
  | fromHere v => simp only [onContext, Context.declareDefault]; split <;> simp
  | _ => simp [onContext]

/-- The names of module functions are those that some deed listed. -/
theorem mem_functionNames_foldl (ds : List Deed) (c : Context) (name : Text) :
    name ∈ (ds.foldl onContext c).moduleFunctionNames ↔
      .function name ∈ ds ∨ name ∈ c.moduleFunctionNames := by
  induction ds generalizing c with
  | nil => simp
  | cons d ds ih =>
      rw [List.foldl_cons, ih, mem_functionNames_onContext, List.mem_cons, or_left_comm,
        ← or_assoc, eq_comm]

end Deed

/-! ## Quiet deeds -/

/-- Does the deed say nothing about the definitions that follow? -/
def Deed.IsQuiet : Deed → Prop
  | fromHere _ | declare _ _ | functionsFromHere | function _ => False
  | method _ _ | singletonMethod _ _ | attributes _ _ _ | promote _ | setClassVisibility _ _
  | singletonClass _ _ | container _ _ => True

namespace Deed.IsQuiet

variable {d : Deed}

theorem declared?_eq (h : d.IsQuiet) (name : Text) : d.declared? name = none := by
  cases d <;> first | rfl | exact h.elim

theorem fromHere?_eq (h : d.IsQuiet) : d.fromHere? = none := by
  cases d <;> first | rfl | exact h.elim

theorem functions?_eq (h : d.IsQuiet) : d.functions? = none := by
  cases d <;> first | rfl | exact h.elim

theorem ne_function (h : d.IsQuiet) (name : Text) : d ≠ .function name := by
  rintro rfl
  exact h

end Deed.IsQuiet

variable (s : Source)

/-- Only visibility keywords and the making of module functions say something about the definitions
that follow. -/
theorem isQuiet_of_mem_deedsOf {n : Node} (hvisibility : ∀ v, directive? s n ≠ some (.visibility v))
    (hfunction : directive? s n ≠ some .moduleFunction) {d : Deed} (hd : d ∈ deedsOf s n) :
    d.IsQuiet := by
  rcases hdirective : directive? s n with _ | v | _ | v | access
  · rcases deedsOf_of_directive_none s hdirective hd with
      ⟨_, rfl⟩ | ⟨_, rfl⟩ | ⟨_, _, rfl⟩ | ⟨_, _, rfl⟩ <;> trivial
  · exact absurd hdirective (hvisibility v)
  · exact absurd hdirective hfunction
  · rw [deedsOf_directive s hdirective] at hd
    obtain ⟨a, -, hd⟩ := List.mem_flatMap.1 hd
    cases a <;> simp only [Argument.classVisibilityDeeds, List.mem_cons, List.not_mem_nil, or_false]
      at hd
    · rcases hd with rfl | rfl <;> trivial
    · subst hd
      trivial
  · rw [deedsOf_directive s hdirective] at hd
    obtain rfl := List.mem_singleton.1 hd
    trivial

end RubyDoc.Outline
