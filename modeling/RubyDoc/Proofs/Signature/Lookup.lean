import Mathlib.Tactic.Common
import RubyDoc.Signature.Lookup

/-!
# What a series of lookups remembers

An answer that was given once is given again, whatever the provider would say now.  So a series of
lookups only ever adds answers (`Reaches.extends`), and two series that agree under the keys they
share find the same (`find_eq_of_agree`).  Nothing is said about which answers a provider gives.
-/

namespace RubyDoc.Signature

/-- Can every part of what was found be read? -/
def Finding.Readable (f : Finding) : Prop :=
  ∀ t, f ≠ .unreadable t

/-- Can everything that the provider finds be read? -/
def Provider.Readable (p : Provider) : Prop :=
  ∀ earlier key f, p.answer earlier key = .ok f → f.Readable

theorem readable_nothing : Finding.nothing.Readable := by
  intro t h
  cases h

theorem Finding.Readable.read_eq {f : Finding} (hf : f.Readable) {α : Type}
    (part : Signature → Option α) : ∃ a, f.read part = .ok a := by
  cases f with
  | nothing => exact ⟨none, rfl⟩
  | found s => exact ⟨part s, rfl⟩
  | unreadable t => exact absurd rfl (hf t)

namespace Lookups

/-- Does `l'` remember everything that `l` does? -/
def Extends (l l' : Lookups) : Prop :=
  ∀ key f, l.answers.lookup key = some f → l'.answers.lookup key = some f

/-- Do the two series remember the same for the keys that both looked up? -/
def Agree (l l' : Lookups) : Prop :=
  ∀ key f g, l.answers.lookup key = some f → l'.answers.lookup key = some g → f = g

theorem agree_empty (l : Lookups) : Agree {} l := by
  intro key f g hf
  cases hf

/-- Can everything that was found be read? -/
def Readable (l : Lookups) : Prop :=
  ∀ key f, l.answers.lookup key = some f → f.Readable

/-- The states that lookups and reports lead to. -/
inductive Reaches (provider : Option Provider) (l : Lookups) : Lookups → Prop
  | refl : Reaches provider l l
  | find {l' : Lookups} (key : Key) (h : Reaches provider l l') :
      Reaches provider l (find provider key l').2
  | report {l' : Lookups} (d : Diagnostic) (h : Reaches provider l l') :
      Reaches provider l (l'.report d)

theorem Reaches.trans {provider : Option Provider} {l l' l'' : Lookups}
    (h : Reaches provider l l') (h' : Reaches provider l' l'') : Reaches provider l l'' := by
  induction h' with
  | refl => exact h
  | find key _ ih => exact ih.find key
  | report d _ ih => exact ih.report d

@[simp] theorem answers_notice (l : Lookups) (p : Provider) : (l.notice p).answers = l.answers := by
  unfold notice
  split
  · split <;> rfl
  · rfl

@[simp] theorem answers_fail (l : Lookups) (t : Trouble) : (l.fail t).answers = l.answers := by
  unfold fail
  split <;> rfl

@[simp] theorem answers_ask (l : Lookups) (key : Key) : (l.ask key).answers = l.answers := rfl

theorem mem_keys_of_lookup {l : Lookups} {key : Key} {f : Finding}
    (h : l.answers.lookup key = some f) : key ∈ l.keys := by
  obtain ⟨before, after, hanswers, -⟩ := List.lookup_eq_some_iff.1 h
  exact List.mem_map.2 ⟨(key, f), by simp [hanswers], rfl⟩

theorem find_of_lookup (p : Provider) {key : Key} {l : Lookups} {f : Finding}
    (h : l.answers.lookup key = some f) : find (some p) key l = (f, l) := by
  rw [find, h]

/-- A key that was not looked up before is added to the answers with what the provider says. -/
theorem find_of_lookup_none (p : Provider) {key : Key} {l : Lookups}
    (h : l.answers.lookup key = none) :
    (find (some p) key l).2.answers = (key, (find (some p) key l).1) :: l.answers ∧
      ((find (some p) key l).1 = .nothing ∨
        p.answer l.calls key = .ok (find (some p) key l).1) := by
  rw [find, h]
  cases hanswer : p.answer l.calls key with
  | ok f => exact ⟨by simp [remember], Or.inr rfl⟩
  | error t => exact ⟨by simp [remember], Or.inl rfl⟩

theorem lookup_find (p : Provider) (key : Key) (l : Lookups) :
    (find (some p) key l).2.answers.lookup key = some (find (some p) key l).1 := by
  cases h : l.answers.lookup key with
  | some f => rw [find_of_lookup p h, h]
  | none => rw [(find_of_lookup_none p h).1, List.lookup_cons_self]

theorem find_extends (provider : Option Provider) (key : Key) (l : Lookups) :
    Extends l (find provider key l).2 := by
  intro key' f hf
  cases provider with
  | none => exact hf
  | some p =>
      cases h : l.answers.lookup key with
      | some g =>
          rw [find_of_lookup p h]
          exact hf
      | none =>
          -- The new answer is under a key that has none yet.
          have hne : (key' == key) = false := by
            rw [beq_eq_false_iff_ne]
            rintro rfl
            rw [h] at hf
            cases hf
          rw [(find_of_lookup_none p h).1, List.lookup_cons, hne]
          exact hf

theorem Reaches.extends {provider : Option Provider} {l l' : Lookups}
    (h : Reaches provider l l') : Extends l l' := by
  induction h with
  | refl => exact fun _ _ hf => hf
  | find key _ ih => exact fun key' f hf => find_extends provider key _ key' f (ih key' f hf)
  | report _ _ ih => exact ih

/-! ## Readable answers -/

theorem find_readable {provider : Option Provider} (hp : ∀ p, provider = some p → p.Readable)
    {l : Lookups} (hl : l.Readable) (key : Key) :
    (find provider key l).1.Readable ∧ (find provider key l).2.Readable := by
  cases provider with
  | none => exact ⟨readable_nothing, hl⟩
  | some p =>
      cases h : l.answers.lookup key with
      | some f =>
          rw [find_of_lookup p h]
          exact ⟨hl key f h, hl⟩
      | none =>
          obtain ⟨hanswers, hfound⟩ := find_of_lookup_none p h
          have hreadable : (find (some p) key l).1.Readable := by
            rcases hfound with hfound | hfound
            · rw [hfound]
              exact readable_nothing
            · exact hp p rfl _ _ _ hfound
          refine ⟨hreadable, fun key' f hf => ?_⟩
          rw [hanswers, List.lookup_cons] at hf
          split at hf
          · exact Option.some.inj hf ▸ hreadable
          · exact hl key' f hf

theorem Reaches.readable {provider : Option Provider} (hp : ∀ p, provider = some p → p.Readable)
    {l l' : Lookups} (h : Reaches provider l l') (hl : l.Readable) : l'.Readable := by
  induction h with
  | refl => exact hl
  | find key _ ih => exact (find_readable hp ih key).2
  | report _ _ ih => exact ih

/-! ## Two series that agree -/

/-- What is remembered at the end of two series that agree was found in both.  The two may ask
different providers, as long as both have one or neither has. -/
theorem find_eq_of_agree {provider provider' : Option Provider}
    (hboth : provider'.isSome = provider.isSome) (key : Key) {l l' m m' : Lookups}
    (hl : Extends (find provider key l).2 l') (hm : Extends (find provider' key m).2 m')
    (hagree : Agree l' m') : (find provider key l).1 = (find provider' key m).1 := by
  cases provider with
  | none =>
      obtain rfl := Option.isSome_eq_false_iff.1 hboth |> Option.isNone_iff_eq_none.1
      rfl
  | some p =>
      obtain ⟨p', rfl⟩ := Option.isSome_iff_exists.1 hboth
      exact hagree key _ _ (hl key _ (lookup_find p key l)) (hm key _ (lookup_find p' key m))

theorem Extends.trans {l l' l'' : Lookups} (h : Extends l l') (h' : Extends l' l'') :
    Extends l l'' :=
  fun key f hf => h' key f (h key f hf)

/-- A series agrees with every later state of itself. -/
theorem Extends.agree {l l' : Lookups} (h : Extends l l') : Agree l l' := by
  intro key f g hf hg
  rw [h key f hf] at hg
  exact Option.some.inj hg

/-- What was found once is found at the end of the series. -/
theorem find_eq_at_end (provider : Option Provider) (key : Key) {l l' : Lookups}
    (h : Extends (find provider key l).2 l') :
    (find provider key l).1 = (find provider key l').1 :=
  find_eq_of_agree rfl key h (fun _ _ hf => hf) (find_extends provider key l').agree

/-! ## Computations that may fail -/

theorem bind_eq_ok {ε α β : Type} {x : Except ε α} {f : α → Except ε β} {c : β}
    (h : (x >>= f) = .ok c) : ∃ a, x = .ok a ∧ f a = .ok c := by
  cases x with
  | error e => cases h
  | ok a => exact ⟨a, rfl, h⟩

theorem run_bind_ok {σ ε α β : Type} {x : ExceptT ε (StateM σ) α}
    {f : α → ExceptT ε (StateM σ) β} {l l' : σ} {a : α}
    (h : x.run.run l = (.ok a, l')) : (x >>= f).run.run l = (f a).run.run l' := by
  rw [ExceptT.run_bind]
  show StateT.run (match (x.run.run l).1 with | .ok a => (f a).run | .error e => pure (.error e))
    (x.run.run l).2 = _
  rw [h]

theorem run_bind_error {σ ε α β : Type} {x : ExceptT ε (StateM σ) α}
    {f : α → ExceptT ε (StateM σ) β} {l l' : σ} {e : ε}
    (h : x.run.run l = (.error e, l')) : (x >>= f).run.run l = (.error e, l') := by
  rw [ExceptT.run_bind]
  show StateT.run (match (x.run.run l).1 with | .ok a => (f a).run | .error e => pure (.error e))
    (x.run.run l).2 = _
  rw [h]
  rfl

theorem run_bind_eq_ok {σ ε α β : Type} {x : ExceptT ε (StateM σ) α}
    {f : α → ExceptT ε (StateM σ) β} {l l' : σ} {c : β}
    (h : (x >>= f).run.run l = (.ok c, l')) :
    ∃ a m, x.run.run l = (.ok a, m) ∧ (f a).run.run m = (.ok c, l') := by
  rcases hx : x.run.run l with ⟨e | a, m⟩
  · rw [run_bind_error hx] at h
    cases (Prod.mk.inj h).1
  · rw [run_bind_ok hx] at h
    exact ⟨a, m, rfl, h⟩

/-- Two computations that only look up and report, each with its own provider, and that give the
same result whenever the series they end in agree. -/
structure Parallel (provider provider' : Option Provider) {α : Type} (x y : StateM Lookups α) :
    Prop where
  left : ∀ l, Reaches provider l (x.run l).2
  right : ∀ l, Reaches provider' l (y.run l).2
  same : ∀ l m l' m', Extends (x.run l).2 l' → Extends (y.run m).2 m' → Agree l' m' →
    (x.run l).1 = (y.run m).1

namespace Parallel

variable {provider provider' : Option Provider} {α β ε : Type}

theorem pure (a : α) : Parallel provider provider' (Pure.pure a) (Pure.pure a) where
  left _ := .refl
  right _ := .refl
  same _ _ _ _ _ _ _ := rfl

theorem find (hboth : provider'.isSome = provider.isSome) (key : Key) :
    Parallel provider provider' (Lookups.find provider key) (Lookups.find provider' key) where
  left _ := .find key .refl
  right _ := .find key .refl
  same _ _ _ _ hl hm hagree := find_eq_of_agree hboth key hl hm hagree

theorem bind {x y : StateM Lookups α} {f g : α → StateM Lookups β}
    (hx : Parallel provider provider' x y) (hf : ∀ a, Parallel provider provider' (f a) (g a)) :
    Parallel provider provider' (x >>= f) (y >>= g) where
  left l := (hx.left l).trans ((hf _).left _)
  right l := (hx.right l).trans ((hf _).right _)
  same l m l' m' hl hm hagree := by
    have hleft : Extends (x.run l).2 l' := ((hf (x.run l).1).left (x.run l).2).extends.trans hl
    have hright : Extends (y.run m).2 m' := ((hf (y.run m).1).right (y.run m).2).extends.trans hm
    -- Both go on with the same value.
    have hvalue := hx.same l m l' m' hleft hright hagree
    have hrest := (hf (x.run l).1).same (x.run l).2 (y.run m).2 l' m' hl
    rw [hvalue] at hrest
    show (StateT.run (f (x.run l).1) (x.run l).2).1 = (StateT.run (g (y.run m).1) (y.run m).2).1
    rw [hvalue]
    exact hrest hm hagree

theorem bindExcept {x y : ExceptT ε (StateM Lookups) α} {f g : α → ExceptT ε (StateM Lookups) β}
    (hx : Parallel provider provider' x.run y.run)
    (hf : ∀ a, Parallel provider provider' (f a).run (g a).run) :
    Parallel provider provider' (x >>= f).run (y >>= g).run := by
  rw [ExceptT.run_bind, ExceptT.run_bind]
  refine hx.bind fun a => ?_
  cases a with
  | error e => exact pure _
  | ok a => exact hf a

end Parallel

/-- Two computations that only look up and report, and that give the same result whenever the
series they end in agree. -/
structure Concur (provider : Option Provider) {α : Type} (x y : StateM Lookups α) : Prop where
  left : ∀ l, Reaches provider l (x.run l).2
  right : ∀ l, Reaches provider l (y.run l).2
  same : ∀ l m l' m', Extends (x.run l).2 l' → Extends (y.run m).2 m' → Agree l' m' →
    (x.run l).1 = (y.run m).1

section Concur

variable {provider : Option Provider} {α β ε : Type}

theorem Parallel.concur {x y : StateM Lookups α} (h : Parallel provider provider x y) :
    Concur provider x y :=
  ⟨h.left, h.right, h.same⟩

namespace Concur

theorem parallel {x y : StateM Lookups α} (h : Concur provider x y) :
    Parallel provider provider x y :=
  ⟨h.left, h.right, h.same⟩

theorem pure (a : α) : Concur provider (Pure.pure a) (Pure.pure a) :=
  (Parallel.pure a).concur

theorem bind {x y : StateM Lookups α} {f g : α → StateM Lookups β} (hx : Concur provider x y)
    (hf : ∀ a, Concur provider (f a) (g a)) : Concur provider (x >>= f) (y >>= g) :=
  (hx.parallel.bind fun a => (hf a).parallel).concur

theorem bindExcept {x y : ExceptT ε (StateM Lookups) α} {f g : α → ExceptT ε (StateM Lookups) β}
    (hx : Concur provider x.run y.run) (hf : ∀ a, Concur provider (f a).run (g a).run) :
    Concur provider (x >>= f).run (y >>= g).run :=
  (hx.parallel.bindExcept fun a => (hf a).parallel).concur

end Concur

end Concur

end Lookups

end RubyDoc.Signature
