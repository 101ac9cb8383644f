import Mathlib.Data.List.Forall2
import RubyDoc.Proofs.Edit.Place

/-!
# Planning one definition after another

A series of plans as a relation between the definitions, the lookups before and after, and the plans
(`planEach_eq_ok_iff`).  Every plan of a series is the plan of one of its definitions, and every
definition that the filters allow is planned for in a state between the first and the last
(`PlanRun.mem_plan`, `PlanRun.planned`).
-/

namespace RubyDoc.Edit

open Outline Block Signature Lookups

/-- From the lookups `l`, planning for the definitions ends with `plans` and the lookups `l'`. -/
inductive PlanRun (b : Builder) (mode : Mode) :
    List Definition → Lookups → List Plan → Lookups → Prop
  | nil (l : Lookups) : PlanRun b mode [] l [] l
  | skip {d : Definition} {ds : List Definition} {l l' : Lookups} {plans : List Plan}
      (hd : b.allows d = .ok false) (h : PlanRun b mode ds l plans l') :
      PlanRun b mode (d :: ds) l plans l'
  | step {d : Definition} {ds : List Definition} {l l₁ l' : Lookups} {here : Option Plan}
      {later : List Plan} (hd : b.allows d = .ok true)
      (hplan : (plan b mode d).run l = (here, l₁)) (h : PlanRun b mode ds l₁ later l') :
      PlanRun b mode (d :: ds) l (here.toList ++ later) l'

variable {b : Builder} {mode : Mode}

theorem planEach_cons_error {d : Definition} {ds : List Definition} {e : Failure}
    (hd : b.allows d = .error e) (l : Lookups) :
    (planEach b mode (d :: ds)).run.run l = (.error e, l) := by
  rw [planEach, hd]
  rfl

theorem planEach_cons_skip {d : Definition} {ds : List Definition}
    (hd : b.allows d = .ok false) (l : Lookups) :
    (planEach b mode (d :: ds)).run.run l = (planEach b mode ds).run.run l := by
  rw [planEach, hd]
  rfl

theorem planEach_cons_step {d : Definition} {ds : List Definition} {l l₁ : Lookups}
    {here : Option Plan} (hd : b.allows d = .ok true)
    (hplan : (plan b mode d).run l = (here, l₁)) :
    (planEach b mode (d :: ds)).run.run l =
      ((planEach b mode ds).run.run l₁).map (Except.map (here.toList ++ ·)) id := by
  have hlift : (liftM (plan b mode d) : ExceptT Failure (StateM Lookups) (Option Plan)).run.run l =
      (.ok here, l₁) := by
    show (Except.ok ((plan b mode d).run l).1, ((plan b mode d).run l).2) = _
    rw [hplan]
  have hbind : planEach b mode (d :: ds) =
      (liftM (plan b mode d) : ExceptT Failure (StateM Lookups) (Option Plan)) >>= fun here =>
        planEach b mode ds >>= fun later => pure (here.toList ++ later) := by
    rw [planEach, hd]
    rfl
  rw [hbind, run_bind_ok hlift]
  rcases hrest : (planEach b mode ds).run.run l₁ with ⟨e | later, l'⟩
  · exact run_bind_error hrest
  · exact run_bind_ok hrest

theorem planEach_eq_ok_iff {ds : List Definition} {l l' : Lookups} {plans : List Plan} :
    (planEach b mode ds).run.run l = (.ok plans, l') ↔ PlanRun b mode ds l plans l' := by
  constructor
  · intro h
    induction ds generalizing l plans with
    | nil =>
        obtain ⟨hplans, rfl⟩ := Prod.mk.inj h
        obtain rfl := Except.ok.inj hplans
        exact .nil l
    | cons d ds ih =>
        -- The filter rejects a pattern, which a run without failure does not meet, or it decides.
        rcases hd : b.allows d with e | _ | _
        · rw [planEach_cons_error hd] at h
          cases (Prod.mk.inj h).1
        · rw [planEach_cons_skip hd] at h
          exact .skip hd (ih h)
        · rcases hplan : (plan b mode d).run l with ⟨here, l₁⟩
          rw [planEach_cons_step hd hplan] at h
          rcases hrest : (planEach b mode ds).run.run l₁ with ⟨e | later, l₂⟩
          · rw [hrest] at h
            cases (Prod.mk.inj h).1
          · rw [hrest] at h
            obtain ⟨hplans, rfl⟩ := Prod.mk.inj h
            obtain rfl := Except.ok.inj hplans
            exact .step hd hplan (ih hrest)
  · intro h
    induction h with
    | nil l => rfl
    | skip hd _ ih => rw [planEach_cons_skip hd, ih]
    | step hd hplan _ ih =>
        rw [planEach_cons_step hd hplan, ih]
        rfl

namespace PlanRun

variable {ds : List Definition} {l l' : Lookups} {plans : List Plan}

theorem allows_isOk (h : PlanRun b mode ds l plans l') :
    ∀ d ∈ ds, ∃ allowed, b.allows d = .ok allowed := by
  induction h with
  | nil l => exact fun d hd => absurd hd List.not_mem_nil
  | skip hd _ ih => exact List.forall_mem_cons.2 ⟨⟨false, hd⟩, ih⟩
  | step hd _ _ ih => exact List.forall_mem_cons.2 ⟨⟨true, hd⟩, ih⟩

/-- With filters that work, planning ends. -/
theorem exists_of_allows (h : ∀ d ∈ ds, ∃ allowed, b.allows d = .ok allowed)
    (l : Lookups) : ∃ plans l', PlanRun b mode ds l plans l' := by
  induction ds generalizing l with
  | nil => exact ⟨[], l, .nil l⟩
  | cons d ds ih =>
      obtain ⟨⟨allowed, hd⟩, hds⟩ := List.forall_mem_cons.1 h
      cases allowed with
      | false =>
          obtain ⟨plans, l', hrun⟩ := ih hds l
          exact ⟨plans, l', .skip hd hrun⟩
      | true =>
          obtain ⟨later, l', hrun⟩ := ih hds ((plan b mode d).run l).2
          exact ⟨_, l', .step hd rfl hrun⟩

theorem reaches (h : PlanRun b mode ds l plans l') : Reaches b.provider l l' := by
  induction h with
  | nil l => exact .refl
  | skip _ _ ih => exact ih
  | @step d _ l _ _ _ _ _ hhere _ ih =>
      have hfirst := plan_reaches b mode d l
      rw [hhere] at hfirst
      exact hfirst.trans ih

/-- Every plan is the plan for a definition that the filters allow. -/
theorem mem_plan (h : PlanRun b mode ds l plans l') {p : Plan} (hp : p ∈ plans) :
    ∃ d ∈ ds, b.allows d = .ok true ∧ ∃ k, Reaches b.provider l k ∧
      Reaches b.provider ((plan b mode d).run k).2 l' ∧ ((plan b mode d).run k).1 = some p := by
  induction h with
  | nil l => cases hp
  | skip _ _ ih =>
      obtain ⟨d, hd, hrest⟩ := ih hp
      exact ⟨d, List.mem_cons_of_mem _ hd, hrest⟩
  | @step d _ l _ _ here _ hallowed hhere hrun ih =>
      rcases List.mem_append.1 hp with hp | hp
      · refine ⟨d, List.mem_cons_self, hallowed, l, .refl, ?_, ?_⟩
        · rw [hhere]
          exact hrun.reaches
        · rw [hhere]
          exact Option.mem_toList.1 hp
      · obtain ⟨e, he, hallowed, k, hbefore, hrest⟩ := ih hp
        have hfirst := plan_reaches b mode d l
        rw [hhere] at hfirst
        exact ⟨e, List.mem_cons_of_mem _ he, hallowed, k, hfirst.trans hbefore, hrest⟩

/-- Every definition that the filters allow is planned for. -/
theorem planned (h : PlanRun b mode ds l plans l') {d : Definition} (hd : d ∈ ds)
    (hallowed : b.allows d = .ok true) :
    ∃ k, Reaches b.provider l k ∧ Reaches b.provider ((plan b mode d).run k).2 l' ∧
      ∀ p, ((plan b mode d).run k).1 = some p → p ∈ plans := by
  induction h with
  | nil l => cases hd
  | skip hskip _ ih =>
      rcases List.mem_cons.1 hd with rfl | hd
      · rw [hskip] at hallowed
        cases hallowed
      · exact ih hd
  | @step e _ l l₁ l' here _ _ hhere hrest ih =>
      rcases List.mem_cons.1 hd with rfl | hd
      · refine ⟨l, .refl, ?_, fun p hp => ?_⟩
        · rw [hhere]
          exact hrest.reaches
        · rw [hhere] at hp
          exact List.mem_append_left _ (Option.mem_toList.2 hp)
      · obtain ⟨k, hbefore, hafter, hmem⟩ := ih hd
        have hfirst := plan_reaches b mode e l
        rw [hhere] at hfirst
        exact ⟨k, hfirst.trans hbefore, hafter, fun p hp => List.mem_append_right _ (hmem p hp)⟩

/-- Two runs whose plans correspond definition by definition have plans that correspond. -/
theorem forall₂ {b' : Builder} {image : Definition → Definition} {R : Plan → Plan → Prop}
    {m m' : Lookups} {plans' : List Plan} (h : PlanRun b mode ds l plans l')
    (h' : PlanRun b' mode (ds.map image) m plans' m')
    (hallows : ∀ d ∈ ds, b'.allows (image d) = b.allows d)
    (hplan : ∀ d ∈ ds, b.allows d = .ok true → ∀ k k',
      Extends ((plan b mode d).run k).2 l' → Extends ((plan b' mode (image d)).run k').2 m' →
      List.Forall₂ R ((plan b mode d).run k).1.toList ((plan b' mode (image d)).run k').1.toList) :
    List.Forall₂ R plans plans' := by
  -- The filters agree, so the second run skips and plans where the first does.
  induction h generalizing m plans' with
  | nil l =>
      cases h'
      exact .nil
  | @skip d ds l l' plans hd _ ih =>
      obtain ⟨hsame, hallows⟩ := List.forall_mem_cons.1 hallows
      rw [← hsame] at hd
      cases h' with
      | step hd' _ _ =>
          rw [hd] at hd'
          cases hd'
      | skip _ h' => exact ih h' hallows fun e he => hplan e (List.mem_cons_of_mem _ he)
  | @step d ds l l₁ l' here later hd hhere hrest ih =>
      obtain ⟨hsame, hallows⟩ := List.forall_mem_cons.1 hallows
      cases h' with
      | skip hd' _ =>
          rw [hsame, hd] at hd'
          cases hd'
      | @step _ _ _ m₁ _ here' later' _ hhere' h' =>
          have hfirst := hplan d List.mem_cons_self hd l m
          rw [hhere, hhere'] at hfirst
          exact List.rel_append (hfirst hrest.reaches.extends h'.reaches.extends)
            (ih h' hallows fun e he => hplan e (List.mem_cons_of_mem _ he))

end PlanRun

/-! ## A single definition -/

theorem planAll_singleton (b : Builder) (mode : Mode) (d : Definition) :
    planAll b mode [d] = planEach b mode [d] := by
  rw [planAll, inTextOrder, List.mergeSort_singleton]

/-- A builder for the text `t` under the default settings, without signatures. -/
def plainBuilder (t : Text) : Builder where
  source := .ofText t
  settings := {}

/-- A public method of the top container with nothing in it, whose node starts at a byte. -/
def bareMethod (name : Text) (startByte : Nat) : Definition where
  node := ⟨.method, none, startByte, startByte, 0, true, false, false, []⟩
  name := name
  container := topContainer
  scope := .onInstance
  visibility := .pub
  role := .method none

/-- A bare method shows the same in every source. -/
theorem alike_bareMethod (s : Settings) (src src' : Syntax.Source) (name : Text) (i j : Nat) :
    Alike s src (bareMethod name i) src' (bareMethod name j) :=
  ⟨rfl, rfl, rfl, rfl, rfl, rfl, rfl, rfl⟩

/-- The block of the bare method `go`. -/
def bareBlock : List Text :=
  ["# +Object#go+ -> Object", "#", "# Method documentation.", "#", "# @return [Object]"]

/-- The bare method `go` without a comment. -/
def plainGo : Builder :=
  plainBuilder "def go\nend\n"

/-- A one-line method `go` with a parameter and an exception. -/
def guardedGo : Builder :=
  plainBuilder "def go(size) = raise(Full)\n"

/-- The method as a private function of its module that leaves a private copy. -/
def guardedMethod : Definition where
  node := ⟨.method, none, 0, 26, 0, true, false, false,
    [⟨.identifier, some .name, 4, 6, 0, true, false, false, []⟩,
      ⟨.other "method_parameters", some .parameters, 6, 12, 0, true, false, false,
        [⟨.identifier, none, 7, 11, 0, true, false, false, []⟩]⟩,
      ⟨.call, some .body, 15, 26, 0, true, false, false,
        [⟨.identifier, some .method, 15, 20, 0, true, false, false, []⟩,
          ⟨.argumentList, some .arguments, 20, 26, 0, true, false, false,
            [⟨.constant, none, 21, 25, 0, true, false, false, []⟩]⟩]⟩]⟩
  name := "go"
  container := topContainer
  scope := .onInstance
  visibility := .priv
  role := .method (some .priv)

/-- The tags of the guarded method. -/
def guardedTags : List Tag :=
  [.visibility .priv, .moduleFunction "go" .priv, .param "size" "Object", .raised "Full",
    .returned "Object"]

/-- The plan that puts the block above the method. -/
def insertGo : Plan where
  start := 0
  stop := 0
  lines := bareBlock
  indent := []

/-- The source with the block above the method, which starts at the byte 71. -/
def blockAboveGo : Syntax.Source :=
  .ofText (Text.closed bareBlock ++ "def go\nend\n")

end RubyDoc.Edit
