import Mathlib.Tactic.Common
import RubyDoc.Filter.Member

/-!
# What stops a filter

A filter for members fails on a pattern whose expression the engine rejects, and on nothing else.
Whether it comes to that pattern depends on the definition: what is not allowed for its scope meets
no pattern, and nothing is tried after a match.  If the expressions of all patterns can be read, the
filter has an answer for every definition (`exists_allows_eq_ok`).  The engine may be any.
-/

namespace RubyDoc.Filter

open Outline Pattern

/-- Is the pattern a glob, or an expression that the engine can read? -/
def Readable (engine : Engine) (pattern : Text) : Prop :=
  isRegex pattern → ∃ found, engine.regex (pattern.drop 1).dropLast = .ok found

/-- Is the pattern an expression that the engine rejects, and `f` the failure that this is? -/
def Rejects (engine : Engine) (pattern : Text) (f : Failure) : Prop :=
  isRegex pattern ∧ ∃ rejection, engine.regex (pattern.drop 1).dropLast = .error rejection ∧
    f = failureOf pattern rejection

/-- Does `r` fail only on a pattern among `patterns` that the engine rejects? -/
def FailsOn {α : Type} (engine : Engine) (patterns : List Text) (r : Except Failure α) : Prop :=
  ∀ f, r = .error f → ∃ pattern ∈ patterns, Rejects engine pattern f

variable {engine : Engine}

theorem Readable.not_rejects {pattern : Text} (h : Readable engine pattern) (f : Failure) :
    ¬Rejects engine pattern f := by
  rintro ⟨hregex, rejection, hrejected, -⟩
  obtain ⟨found, hfound⟩ := h hregex
  cases hfound.symm.trans hrejected

section FailsOn

variable {α β : Type} {patterns more : List Text}

theorem failsOn_ok (a : α) : FailsOn engine patterns (.ok a : Except Failure α) := nofun

theorem FailsOn.mono {r : Except Failure α} (h : FailsOn engine patterns r)
    (hsub : patterns ⊆ more) : FailsOn engine more r := fun f hf => by
  obtain ⟨pattern, hpattern, hrejects⟩ := h f hf
  exact ⟨pattern, hsub hpattern, hrejects⟩

theorem FailsOn.bind {r : Except Failure α} {g : α → Except Failure β}
    (h : FailsOn engine patterns r) (hg : ∀ a, FailsOn engine patterns (g a)) :
    FailsOn engine patterns (r >>= g) := by
  cases r with
  | error e =>
      intro f hf
      obtain rfl := Except.error.inj hf
      exact h e rfl
  | ok a => exact hg a

theorem FailsOn.exists_ok {r : Except Failure α} (h : FailsOn engine patterns r)
    (hpatterns : ∀ pattern ∈ patterns, Readable engine pattern) : ∃ a, r = .ok a := by
  cases r with
  | ok a => exact ⟨a, rfl⟩
  | error f =>
      obtain ⟨pattern, hpattern, hrejects⟩ := h f rfl
      exact absurd hrejects ((hpatterns pattern hpattern).not_rejects f)

end FailsOn

variable (engine)

theorem failsOn_matchesId (pattern id : Text) :
    FailsOn engine [pattern] (matchesId pattern engine id) := by
  intro f hf
  rw [matchesId] at hf
  split at hf
  · rename_i hregex
    rw [regexOf] at hf
    cases hread : engine.regex (pattern.drop 1).dropLast with
    | ok found =>
        rw [hread] at hf
        cases hf
    | error rejection =>
        rw [hread] at hf
        exact ⟨pattern, List.mem_singleton_self _, hregex, rejection, hread,
          (Except.error.inj hf).symm⟩
  · cases hf

theorem failsOn_anyMatches (id : Text) (patterns : List Text) :
    FailsOn engine patterns (anyMatches engine id patterns) := by
  induction patterns with
  | nil => exact failsOn_ok false
  | cons pattern rest ih =>
      have hrest := ih.mono (List.subset_cons_self pattern rest)
      rw [anyMatches]
      split
      · exact hrest
      · refine ((failsOn_matchesId engine pattern id).mono (by simp)).bind fun matched => ?_
        split
        · exact failsOn_ok true
        · exact hrest

/-- The patterns for members. -/
def patternsOf (f : Settings.Filter) : List Text :=
  f.excludes ++ f.includes

theorem failsOn_allowsMethod (f : Settings.Filter) (container : Text) (scope : Scope)
    (v : Visibility) (name : Text) :
    FailsOn engine (patternsOf f) (allowsMethod f container scope v name engine) := by
  rw [allowsMethod]
  split
  · exact failsOn_ok false
  · have hexcluded := failsOn_anyMatches engine (memberId container scope name) f.excludes
    refine (hexcluded.mono (List.subset_append_left _ _)).bind fun excluded => ?_
    split
    · exact failsOn_ok false
    · split
      · exact failsOn_ok true
      · exact (failsOn_anyMatches engine _ _).mono (List.subset_append_right _ _)

theorem failsOn_anyAllowed (f : Settings.Filter) (container : Text) (scope : Scope)
    (v : Visibility) (names : List Text) :
    FailsOn engine (patternsOf f) (anyAllowed f container scope v engine names) := by
  induction names with
  | nil => exact failsOn_ok false
  | cons name rest ih =>
      rw [anyAllowed]
      refine (failsOn_allowsMethod engine f container scope v name).bind fun allowed => ?_
      split
      · exact failsOn_ok true
      · exact ih

/-- **A filter fails on a pattern that the engine rejects, and on nothing else.** -/
theorem failsOn_allows (s : Settings) (d : Definition) :
    FailsOn engine (patternsOf s.filter) (allows s d engine) := by
  rw [allows]
  split
  · exact failsOn_allowsMethod engine _ _ _ _ _
  · split
    · exact failsOn_anyAllowed engine _ _ _ _ _
    · exact failsOn_ok false

variable {engine}

/-- A filter with readable patterns has an answer for every definition. -/
theorem exists_allows_eq_ok {s : Settings}
    (hpatterns : ∀ pattern ∈ patternsOf s.filter, Readable engine pattern) (d : Definition) :
    ∃ allowed, allows s d engine = .ok allowed :=
  (failsOn_allows engine s d).exists_ok hpatterns

end RubyDoc.Filter
