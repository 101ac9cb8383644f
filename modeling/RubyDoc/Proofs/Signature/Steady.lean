import RubyDoc.Proofs.Signature.Lookup
import RubyDoc.Signature.Files

/-!
# Lookups that can be trusted

A provider is steady if what it says of a key does not depend on the keys that it was asked for
before; an index is.  In front of a steady provider it does not matter what a series of lookups
remembers, as long as it remembers what the provider said: work that only looks up has the same
result wherever in the series it stands (`run_eq_of_faithful`).
-/

namespace RubyDoc.Signature

/-- Does the provider give the same answer to a key, whatever it was asked before? -/
def Provider.Steady (p : Provider) : Prop :=
  ∀ earlier earlier' key, p.answer earlier key = p.answer earlier' key

/-- What a series of lookups takes the first answer to a key for: a failure is no signature. -/
def firstFinding (provider : Option Provider) (key : Key) : Finding :=
  match provider with
  | none => .nothing
  | some p => (p.answer [] key).toOption.getD .nothing

/-- Two steady providers, or none in either place, that say the same of every key outside `K`. -/
structure AgreeOutside (K : Set Key) (provider provider' : Option Provider) : Prop where
  both : provider'.isSome = provider.isSome
  steady : ∀ p, provider = some p → p.Steady
  steady' : ∀ p, provider' = some p → p.Steady
  same : ∀ key ∉ K, firstFinding provider key = firstFinding provider' key

namespace Lookups

/-- Does the series remember nothing but what the provider says? -/
def Faithful (provider : Option Provider) (l : Lookups) : Prop :=
  ∀ key f, l.answers.lookup key = some f → f = firstFinding provider key

theorem faithful_of_answers_eq_nil {provider : Option Provider} {l : Lookups}
    (h : l.answers = []) : Faithful provider l := by
  intro key f hf
  rw [h] at hf
  cases hf

/-- A steady provider is quoted faithfully. -/
theorem find_of_steady {p : Provider} (hp : p.Steady) {key : Key} {l : Lookups}
    (h : l.answers.lookup key = none) :
    (find (some p) key l).1 = firstFinding (some p) key := by
  rw [find, h, hp l.calls [], firstFinding]
  cases p.answer [] key <;> rfl

section Steady

variable {provider : Option Provider} (hp : ∀ p, provider = some p → p.Steady) {l m : Lookups}
include hp

theorem Faithful.find (h : Faithful provider l) (key : Key) :
    Faithful provider (find provider key l).2 := by
  cases provider with
  | none => exact h
  | some p =>
      intro key' f hf
      cases hlookup : l.answers.lookup key with
      | some g =>
          rw [find_of_lookup p hlookup] at hf
          exact h key' f hf
      | none =>
          rw [(find_of_lookup_none p hlookup).1, List.lookup_cons] at hf
          split at hf
          · rename_i hkey
            rw [← Option.some.inj hf, eq_of_beq hkey]
            exact find_of_steady (hp p rfl) hlookup
          · exact h key' f hf

theorem Reaches.faithful (h : Reaches provider l m) (hl : Faithful provider l) :
    Faithful provider m := by
  induction h with
  | refl => exact hl
  | find key _ ih => exact ih.find hp key
  | report d _ ih => exact ih

/-- **Work that only looks up has the same result in every faithful series.** -/
theorem run_eq_of_faithful {α : Type} {x : StateM Lookups α} (hx : Concur provider x x)
    (hl : Faithful provider l) (hm : Faithful provider m) : (x.run l).1 = (x.run m).1 := by
  have hl' := (hx.left l).faithful hp hl
  have hm' := (hx.left m).faithful hp hm
  refine hx.same l m _ _ (fun _ _ h => h) (fun _ _ h => h) fun key f g hf hg => ?_
  rw [hl' key f hf, hm' key g hg]

end Steady

/-- Work that looks up no key on which the providers differ has the same result with both. -/
theorem run_eq_of_agreeOutside {K : Set Key} {provider provider' : Option Provider} {α : Type}
    {x y : StateM Lookups α} {l m : Lookups} (h : AgreeOutside K provider provider')
    (hxy : Parallel provider provider' x y) (hl : Faithful provider l)
    (hm : Faithful provider' m) (hkeys : ∀ key ∈ (x.run l).2.keys, key ∉ K) :
    (x.run l).1 = (y.run m).1 := by
  have hl' := (hxy.left l).faithful h.steady hl
  have hm' := (hxy.right m).faithful h.steady' hm
  refine hxy.same l m _ _ (fun _ _ h => h) (fun _ _ h => h) fun key f g hf hg => ?_
  rw [hl' key f hf, hm' key g hg, h.same key (hkeys key (mem_keys_of_lookup hf))]

end Lookups

end RubyDoc.Signature
