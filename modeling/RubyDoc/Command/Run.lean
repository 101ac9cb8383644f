import RubyDoc.Command.Session
import RubyDoc.Edit.Document
import RubyDoc.Filter.File
import RubyDoc.Settings.Summary
import RubyDoc.Signature.Files

/-!
# Documenting files

A run goes through the files one after another and gives a verdict on each.  In check mode nothing
is written.  A file that cannot be read or is no Ruby does not stop the run; a pattern that the
engine rejects does, and leaves what was written before it.
-/

namespace RubyDoc.Command

open Edit Signature

/-- What becomes of one file. -/
inductive Verdict where
  | unchanged | wouldChange | changed | failed
  deriving DecidableEq, Repr

namespace Verdict

/-- The letter for a verdict in the progress line. -/
def marker : Verdict → Text
  | unchanged => "."
  | wouldChange => "F"
  | changed => "C"
  | failed => "E"

/-- The word for a verdict in a line of its own. -/
def label : Verdict → Text
  | unchanged => "OK"
  | wouldChange => "FAIL"
  | changed => "UPDATED"
  | failed => "ERROR"

end Verdict

/-- What a run does to every file. -/
structure Job where
  world : World
  mode : Mode
  settings : Settings
  provider : Option Provider
  check : Bool
  /-- A line for each file instead of a letter. -/
  verbose : Bool

namespace Job

/-- The task of documenting a text that is named `file` in reports. -/
def task (job : Job) (file : Text) : Task where
  grammar := job.world.grammar
  mode := job.mode
  settings := job.settings
  provider := job.provider
  file := file
  reportTrouble := job.world.environment.reportsTrouble
  engine := job.world.engine

/-- What becomes of a file when documenting its text ends with `r`.  A text that is no Ruby has no
new one; any other failure ends the run. -/
def settled (r : Except Failure Text) : Except Failure (Except Text Text) :=
  match r with
  | .ok new => .ok (.ok new)
  | .error (.unparsable file line) => .ok (.error (Failure.unparsable file line).message)
  | .error f => .error f

/-- The new text of a file that holds `text`, or why there is none. -/
def newText (job : Job) (p : Path) (text : Text) :
    ExceptT Failure (StateM Lookups) (Except Text Text) :=
  ExceptT.mk do
    pure (settled (← ((job.task p.toText).document text).run))

/-- The verdict on a file that was read. -/
def verdict (job : Job) (text new : Text) : Verdict :=
  if new = text then .unchanged else if job.check then .wouldChange else .changed

/-- The message about a verdict. -/
def progress (job : Job) (p : Path) (v : Verdict) : Message :=
  if job.verbose then .line (v.label ++ " " ++ p.toText) else .raw v.marker

/-- Takes note of a file that has no new text. -/
def reject (job : Job) (p : Path) (reason : Text) : Action Verdict := do
  tell (job.progress p .failed)
  tell (.error ("Failed to process " ++ p.toText ++ ": " ++ reason))
  pure .failed

/-- Gives a file its new text if the verdict is that it changes. -/
def store (job : Job) (p : Path) (new : Text) (v : Verdict) : Action Unit :=
  if v = .changed then
    modify fun s => { s with files := s.files.write job.world.root p new }
  else pure ()

/-- Works on one file. -/
def file (job : Job) (p : Path) : Action Verdict := do
  match (← get).files.read job.world.root p with
  | .error fault => job.reject p (fault.message p)
  | .ok text =>
      match ← withLookups (job.newText p text) with
      | .error reason => job.reject p reason
      | .ok new =>
          let v := job.verdict text new
          job.store p new v
          tell (job.progress p v)
          pure v

/-- Works on files one after another. -/
def files (job : Job) : List Path → Action (List (Path × Verdict))
  | [] => pure []
  | p :: rest => do
      let v ← job.file p
      let later ← job.files rest
      pure ((p, v) :: later)

end Job

/-- The files with a verdict. -/
def withVerdict (v : Verdict) (verdicts : List (Path × Verdict)) : List Path :=
  (verdicts.filter fun entry => entry.2 = v).map Prod.fst

/-- The number of files with a verdict, in digits. -/
def countOf (v : Verdict) (verdicts : List (Path × Verdict)) : Text :=
  Text.ofNat (withVerdict v verdicts).length

/-- What is told at the end of a run. -/
def summaryOf (check : Bool) (verdicts : List (Path × Verdict)) : List Message :=
  let failing := withVerdict .wouldChange verdicts
  if !check then [.line ("yardgen: updated " ++ countOf .changed verdicts ++ " file(s)")]
  else if failing.isEmpty then
    [.line ("yardgen: OK (" ++ countOf .unchanged verdicts ++ " files checked)")]
  else
    .line ("yardgen: FAILED (" ++ countOf .wouldChange verdicts ++ " failing, " ++
        countOf .unchanged verdicts ++ " ok)") ::
      failing.map fun p => .warning ("Missing docs: " ++ p.toText)

/-- The exit code of a run: files that failed outweigh files that would change. -/
def exitCodeOf (verdicts : List (Path × Verdict)) : Nat :=
  if verdicts.any fun entry => entry.2 = .failed then 4
  else if verdicts.any fun entry => entry.2 = .wouldChange then 3
  else 0

/-- Works on files and sums up. -/
def runFiles (job : Job) (paths : List Path) : Action Nat := do
  let verdicts ← job.files paths
  if !job.verbose then tell (.line [])
  (summaryOf job.check verdicts).forM tell
  pure (exitCodeOf verdicts)

/-! ## Which files -/

/-- The ending of the names of Ruby files. -/
def rubyEnding : Text := ".rb"

/-- The files that one argument names: itself, or the Ruby files below it; none if it is missing. -/
def filesNamed? (root : Path) (files : FileSystem) (argument : Text) : Option (List Path) :=
  let p := Path.ofText argument
  match files.locate root p with
  | none => none
  | some place =>
      if files.isDirectory place then
        some ((files.pathsBelow root p rubyEnding).filter fun q =>
          (files.locate root q).any files.isFile)
      else if files.isFile place then some [p]
      else none

/-- The files that arguments name, each once and in order.  A missing one is told. -/
def filesNamed (w : World) : List Text → Action (List Path)
  | [] => pure []
  | argument :: rest => do
      match filesNamed? w.root (← get).files argument with
      | some found => pure (found ++ (← filesNamed w rest))
      | none =>
          tell (.warning ("Skipping missing path: " ++ argument))
          filesNamed w rest

/-- The files of a run: named, not filtered out, and at least one. -/
def filesOf (w : World) (settings : Settings) (arguments : List Text) : Action (List Path) := do
  let filter ← (Filter.FileFilter.ofSettings settings.filter.files w.engine :
    Except Failure Filter.FileFilter)
  let named ← filesNamed w arguments
  let files := (named.eraseDups.mergeSort Path.le).filter fun p =>
    filter.allows (Path.filterForm w.root w.root p)
  if files.isEmpty then throw .noFiles else pure files

/-! ## The command -/

/-- The provider of signatures that settings ask for. -/
def providerFor (w : World) (files : FileSystem) (settings : Settings) : Option Provider :=
  if settings.signatures.enabled then
    some (.ofDirectories files w.root settings.signatures.directories settings.signatures.collapse)
  else none

/-- The job of a run, after its settings were read and told. -/
def prepare (w : World) (console : Console) (flags : RunFlags) : Action Job := do
  let mode ← (Mode.select flags.refresh flags.join : Except Failure Mode)
  let settings := flags.overrides.applyTo (← loadSettings w flags.settingsFile)
  tell (.debug ("Mode: " ++ mode.name))
  tell (.debug ("Effective config: " ++ settings.toValue.toJson))
  pure { world := w, mode, settings
         provider := providerFor w (← get).files settings
         check := flags.check
         verbose := console.verbose }

/-- Documents the text at the standard input. -/
def runFilter (job : Job) : Action Nat := do
  let text := job.world.input.unifyNewlines
  let new ← withLookups ((job.task inputName).documentOrKeep text)
  tell (.raw new)
  pure 0

/-- Runs. -/
def run (w : World) (console : Console) (flags : RunFlags) : Action Nat := do
  let job ← prepare w console flags
  if flags.filter then runFilter job
  else if flags.paths.isEmpty then throw .noInput
  else if !flags.check && !flags.write then throw .noMode
  else runFiles job (← filesOf w job.settings flags.paths)

end RubyDoc.Command
