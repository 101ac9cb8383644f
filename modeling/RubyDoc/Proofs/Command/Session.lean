import RubyDoc.Command.Session
import RubyDoc.Proofs.Signature.Lookup

/-!
# Work within a session

How the parts of a command run, one equation for each, and which parts leave the files alone.  Work
that keeps the files may still fail; it keeps them in either case.
-/

namespace RubyDoc.Command

open Signature Lookups

variable {α β : Type} {s : Session}

/-! ## Running -/

/-- Does the work leave the files as they are, whether it fails or not? -/
def KeepsFiles (work : Action α) : Prop :=
  ∀ s, (work.run.run s).2.files = s.files

namespace KeepsFiles

theorem pure (a : α) : KeepsFiles (Pure.pure a) := fun _ => rfl

theorem throw (f : Failure) : KeepsFiles (throw f : Action α) := fun _ => rfl

theorem tell (m : Message) : KeepsFiles (tell m) := fun _ => rfl

theorem withLookups (work : ExceptT Failure (StateM Lookups) α) :
    KeepsFiles (withLookups work) := fun _ => rfl

theorem get : KeepsFiles (MonadState.get : Action Session) := fun _ => rfl

theorem bind {work : Action α} {next : α → Action β} (h : KeepsFiles work)
    (hnext : ∀ a, KeepsFiles (next a)) : KeepsFiles (work >>= next) := by
  intro s
  have hfirst := h s
  rcases hwork : work.run.run s with ⟨e | a, s'⟩
  · rw [run_bind_error hwork]
    rwa [hwork] at hfirst
  · rw [run_bind_ok hwork, hnext a s']
    rwa [hwork] at hfirst

end KeepsFiles

end RubyDoc.Command
