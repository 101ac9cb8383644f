import RubyDoc.Command.Line
import RubyDoc.Environment
import RubyDoc.FileSystem
import RubyDoc.Pattern.Engine
import RubyDoc.Settings.Document
import RubyDoc.Signature.Lookup
import RubyDoc.Syntax.Grammar
import RubyDoc.Text.Lines

/-!
# Sessions

A command sees a world that stays as it is while it works, and changes a session: the files, the
state of signature lookups, and what has been told so far.  A failure ends the command but undoes
nothing.
-/

namespace RubyDoc.Command

open Syntax

/-- The name under which reports speak of the standard input. -/
def inputName : Text := "(stdin)"

/-- What a command sees and does not change.  The notations of Ruby, of patterns, of documents and
of command lines are not its own: whatever reads them is part of the world. -/
structure World where
  grammar : Grammar
  /-- What reads patterns. -/
  engine : Pattern.Engine := .builtIn
  /-- The data that a document describes. -/
  readDocument : Text → Except Yaml.Trouble Value := Yaml.read
  /-- What a command line asks for; none if it is misused. -/
  readLine : List Text → Option (Console × Request) := Command.readLine
  /-- The working directory. -/
  root : Path
  environment : Environment := []
  /-- The text at the standard input. -/
  input : Text := []
  /-- What a reader adds to the wording of a failure that it met. -/
  details : Failure → Text := Failure.details
  /-- Where details about an unforeseen failure are. -/
  log : Text := []

/-- What a command changes. -/
structure Session where
  files : FileSystem
  lookups : Signature.Lookups := {}
  /-- What was told, in order. -/
  messages : List Message := []

/-- Work within a session that may fail. -/
abbrev Action := ExceptT Failure (StateM Session)

/-- Tells a message. -/
def tell (m : Message) : Action Unit :=
  modify fun s => { s with messages := s.messages ++ [m] }

/-- A report of a lookup as a message. -/
def ofDiagnostic : Signature.Diagnostic → Message
  | .trace line => .trace line
  | .debug line => .debug line

/-- Does work with lookups, and tells what they reported, also if the work fails. -/
def withLookups {α : Type} (work : ExceptT Failure (StateM Signature.Lookups) α) : Action α :=
  ExceptT.mk fun s =>
    let (result, lookups) := work.run.run { s.lookups with log := [] }
    let told := lookups.log.map ofDiagnostic
    (result, { s with lookups, messages := s.messages ++ told })

/-! ## Settings -/

/-- The name of the settings file in the working directory. -/
def settingsName : Text := "yardgen.yml"

/-- A value that is given and not empty, as a path. -/
def givenPath? (value : Option Text) : Option Path :=
  (value.filter fun t => !t.isEmpty).map Path.ofText

/-- The settings file to use: the one asked for, or that of the environment, or that in the working
directory if there is one. -/
def settingsPath? (w : World) (files : FileSystem) (asked : Option Text) : Option Path :=
  let usual := w.root.join (.ofText settingsName)
  givenPath? asked <|> givenPath? (w.environment.get? "YARDGEN_CONFIG") <|>
    if ((files.locate w.root usual).any files.isFile) then some usual else none

/-- The settings in a file. -/
def settingsIn (w : World) (files : FileSystem) (p : Path) : Except Failure Settings :=
  if !(files.locate w.root p).any files.isFile then .error (.missingSettings p.toText)
  else
    match files.read w.root p with
    | .ok t => Settings.ofDocument p.toText (Text.unifyNewlines t) w.readDocument
    | .error (.badEncoding _) => .error .unexpected
    | .error fault => .error (.unreadableSettings p.toText (fault.message p))

/-- The settings in force before the options of a run. -/
def loadSettings (w : World) (asked : Option Text) : Action Settings := do
  let files := (← get).files
  match settingsPath? w files asked with
  | none => pure {}
  | some p => (settingsIn w files p : Except Failure Settings)

end RubyDoc.Command
