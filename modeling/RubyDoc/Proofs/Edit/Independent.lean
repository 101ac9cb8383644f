import RubyDoc.Proofs.Edit.Document

/-!
# Each definition for itself

Planning goes through the definitions one after the other, with one series of lookups for all of
them.  With a steady provider this makes no difference: the plans are those that each definition
that passes the filters gets for itself (`planAll_run_eq`).  So neither another filter nor another
answer changes the plan of a definition that passes all the same and for which no such answer is
looked up (`planned_independently`).  What is reported on the way is not looked at here.
-/

namespace RubyDoc.Block.Builder

variable {b : Builder} {d : Outline.Definition}

/-- Does the definition pass the filters? -/
def passes (b : Builder) (d : Outline.Definition) : Bool :=
  b.allows d matches .ok true

theorem passes_iff : b.passes d ↔ b.allows d = .ok true := by
  rw [passes]
  rcases b.allows d with e | _ | _ <;> simp

end RubyDoc.Block.Builder

namespace RubyDoc.Edit

open Outline Block Signature Lookups

/-- The plan for a definition for itself, with nothing looked up before. -/
def planAlone (b : Builder) (mode : Mode) (d : Definition) : Option Plan :=
  ((plan b mode d).run {}).1

/-- The keys that are looked up for it. -/
def keysOf (b : Builder) (mode : Mode) (d : Definition) : List Key :=
  ((plan b mode d).run {}).2.keys

/-- The plans that the definitions that pass the filters get, each for itself. -/
def plansAlone (b : Builder) (mode : Mode) (ds : List Definition) : List Plan :=
  (ds.filter b.passes).filterMap (planAlone b mode)

section OneRun

variable {b : Builder} {mode : Mode} {l : Lookups}

theorem plansAlone_cons_skip {d : Definition} (hd : b.allows d = .ok false)
    (ds : List Definition) : plansAlone b mode (d :: ds) = plansAlone b mode ds := by
  rw [plansAlone, List.filter_cons_of_neg, plansAlone]
  simp [Builder.passes_iff, hd]

theorem plansAlone_cons_step {d : Definition} (hd : b.allows d = .ok true)
    (ds : List Definition) :
    plansAlone b mode (d :: ds) = (planAlone b mode d).toList ++ plansAlone b mode ds := by
  rw [plansAlone, List.filter_cons_of_pos (Builder.passes_iff.2 hd), List.filterMap_cons,
    plansAlone]
  cases planAlone b mode d <;> rfl

/-- The plans of some definitions that pass are among all plans, in the order of the definitions. -/
theorem filterMap_sublist_plansAlone {shared ds : List Definition} (h : shared.Sublist ds)
    (hpass : ∀ d ∈ shared, b.allows d = .ok true) :
    (shared.filterMap (planAlone b mode)).Sublist (plansAlone b mode ds) := by
  rw [plansAlone, ← List.filter_eq_self.2 fun d hd => Builder.passes_iff.2 (hpass d hd)]
  exact (h.filter _).filterMap _

variable (hp : ∀ p, b.provider = some p → p.Steady)
  (hpatterns : ∀ pattern ∈ Filter.patternsOf b.settings.filter, Filter.Readable b.engine pattern)
include hp hpatterns

theorem planEach_run_eq (ds : List Definition) (hl : Faithful b.provider l) :
    ((planEach b mode ds).run.run l).1 = .ok (plansAlone b mode ds) := by
  induction ds generalizing l with
  | nil => rfl
  | cons d ds ih =>
      obtain ⟨allowed, hd⟩ := Filter.exists_allows_eq_ok hpatterns d
      cases allowed with
      | false => rw [planEach_cons_skip hd, plansAlone_cons_skip hd, ih hl]
      | true =>
          have hplan := plan_concur b mode d
          have hafter := (hplan.left l).faithful hp hl
          -- What the earlier definitions had looked up makes no difference to this one.
          have hhere : ((plan b mode d).run l).1 = planAlone b mode d :=
            run_eq_of_faithful hp hplan hl (faithful_of_answers_eq_nil rfl)
          rcases hrun : (plan b mode d).run l with ⟨here, l₁⟩
          rw [hrun] at hafter hhere
          rw [planEach_cons_step hd hrun, plansAlone_cons_step hd, ← hhere]
          show Except.map _ ((planEach b mode ds).run.run l₁).1 = _
          rw [ih hafter]
          rfl

/-- **The plans for a file are those of its definitions, each for itself.** -/
theorem planAll_run_eq (ds : List Definition) (hl : Faithful b.provider l) :
    ((planAll b mode ds).run.run l).1 = .ok (plansAlone b mode (inTextOrder ds)) :=
  planEach_run_eq hp hpatterns _ hl

end OneRun

/-- **One definition has no influence on another.**  Two runs over the same definitions differ in
their filters, all of them readable, and in what the provider says of the keys in `K`: that it
fails, knows nothing or hands out what cannot be read instead of a signature, or the other way
round.  Take the definitions that pass in both runs and for which no key of `K` is looked up.  Each
of them gets the same plan in both runs, or none in either, and the plans of any number of them
stand in the same order in both.  Either run may begin with what its provider was asked before. -/
theorem planned_independently {b : Builder} (mode : Mode) (ds : List Definition) {K : Set Key}
    {f' : Settings.Filter} {provider' : Option Provider} {l l' : Lookups}
    (hproviders : AgreeOutside K b.provider provider')
    (hpatterns : ∀ pattern ∈ Filter.patternsOf b.settings.filter,
      Filter.Readable b.engine pattern)
    (hpatterns' : ∀ pattern ∈ Filter.patternsOf f', Filter.Readable b.engine pattern)
    (hl : Faithful b.provider l) (hl' : Faithful provider' l') :
    let b' := b.varied b.source f' provider'
    ((planAll b mode ds).run.run l).1 = .ok (plansAlone b mode (inTextOrder ds)) ∧
      ((planAll b' mode ds).run.run l').1 = .ok (plansAlone b' mode (inTextOrder ds)) ∧
      ∀ shared : List Definition, shared.Sublist (inTextOrder ds) →
        (∀ d ∈ shared, b.allows d = .ok true ∧
          b'.allows d = .ok true ∧ ∀ key ∈ keysOf b mode d, key ∉ K) →
        (∀ d ∈ shared, planAlone b' mode d = planAlone b mode d) ∧
          (shared.filterMap (planAlone b mode)).Sublist (plansAlone b mode (inTextOrder ds)) ∧
          (shared.filterMap (planAlone b mode)).Sublist (plansAlone b' mode (inTextOrder ds)) := by
  intro b'
  refine ⟨planAll_run_eq hproviders.steady hpatterns ds hl,
    planAll_run_eq hproviders.steady' hpatterns' ds hl', fun shared hshared h => ?_⟩
  -- A plan made alone depends on the provider only through the keys that are looked up for it.
  have hplan : ∀ d ∈ shared, planAlone b' mode d = planAlone b mode d := fun d hd =>
    (run_eq_of_agreeOutside hproviders (plan_parallel f' hproviders.both mode d)
      (faithful_of_answers_eq_nil rfl) (faithful_of_answers_eq_nil rfl) (h d hd).2.2).symm
  refine ⟨hplan, filterMap_sublist_plansAlone hshared fun d hd => (h d hd).1, ?_⟩
  rw [← List.filterMap_congr hplan]
  exact filterMap_sublist_plansAlone hshared fun d hd => (h d hd).2.1

/-- A provider that knows the result of every method but `go`. -/
def allButGo (answerGo : Except Trouble Finding) : Provider where
  answer _ key := if key.name = "go" then answerGo else .ok (.found { returnType := "Count" })

/-- What is wrong with `go`. -/
def missingFile : Trouble :=
  ⟨"KeyError", "go"⟩

/-- Three methods. -/
def threeMethods : List Definition :=
  [bareMethod "go" 0, bareMethod "no" 11, bareMethod "so" 22]

/-- The builder for their file, with nothing known about `go`. -/
def threeBuilder : Builder :=
  { plainBuilder "def go\nend\ndef no\nend\ndef so\nend\n" with
    provider := some (allButGo (.ok .nothing)) }

/-- The plan for the method in the middle. -/
def countNo : Plan where
  start := 11
  stop := 11
  lines := ["# +Object#no+ -> Count", "#", "# Method documentation.", "#", "# @return [Count]"]
  indent := []

/-- That the lookup for the method above fails and that the method below is left out makes no
difference to the method in the middle. -/
theorem planned_independently_no :
    let b' := threeBuilder.varied threeBuilder.source { excludes := ["Object#so"] }
      (some (allButGo (.error missingFile)))
    planAlone threeBuilder .insert (bareMethod "no" 11) = some countNo ∧
      planAlone b' .insert (bareMethod "no" 11) = some countNo ∧
      [countNo].Sublist (plansAlone threeBuilder .insert (inTextOrder threeMethods)) ∧
      [countNo].Sublist (plansAlone b' .insert (inTextOrder threeMethods)) := by
  intro b'
  have hsorted : inTextOrder threeMethods = threeMethods :=
    List.mergeSort_of_pairwise (by decide)
  have hproviders : AgreeOutside { key | key.name = "go" } threeBuilder.provider
      (some (allButGo (.error missingFile))) := by
    refine ⟨rfl, ?_, ?_, fun key hkey => ?_⟩
    · rintro p hp
      obtain rfl := Option.some.inj hp
      exact fun _ _ _ => rfl
    · rintro p hp
      obtain rfl := Option.some.inj hp
      exact fun _ _ _ => rfl
    · have hname : key.name ≠ "go" := hkey
      simp only [firstFinding, threeBuilder, allButGo, if_neg hname]
  have hpatterns : ∀ pattern ∈ Filter.patternsOf threeBuilder.settings.filter,
      Filter.Readable threeBuilder.engine pattern :=
    fun _ hpattern => absurd hpattern List.not_mem_nil
  have hpatterns' : ∀ pattern ∈ Filter.patternsOf { excludes := ["Object#so"] },
      Filter.Readable threeBuilder.engine pattern := by
    intro pattern hpattern hregex
    obtain rfl := List.mem_singleton.1 hpattern
    exact absurd hregex (by decide)
  have hplan : planAlone threeBuilder .insert (bareMethod "no" 11) = some countNo := rfl
  obtain ⟨-, -, h⟩ := planned_independently .insert threeMethods hproviders hpatterns hpatterns'
    (faithful_of_answers_eq_nil (l := {}) rfl) (faithful_of_answers_eq_nil (l := {}) rfl)
  have hlisted : [bareMethod "no" 11].Sublist (inTextOrder threeMethods) := by
    rw [hsorted, List.singleton_sublist, threeMethods]
    simp
  have hfree : ∀ key ∈ keysOf threeBuilder .insert (bareMethod "no" 11),
      key ∉ { key : Key | key.name = "go" } := by
    intro key hkey (hname : key.name = "go")
    obtain rfl : key = ⟨topContainer, .onInstance, "no"⟩ := List.mem_singleton.1 hkey
    exact absurd hname (by decide)
  obtain ⟨hsame, hfirst, hsecond⟩ := h [bareMethod "no" 11] hlisted <| by
    intro d hd
    obtain rfl := List.mem_singleton.1 hd
    exact ⟨rfl, by decide, hfree⟩
  rw [List.filterMap_cons, hplan] at hfirst hsecond
  exact ⟨hplan, (hsame _ (List.mem_singleton_self _)).trans hplan, hfirst, hsecond⟩

end RubyDoc.Edit
