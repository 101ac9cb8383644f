import RubyDoc.Command.Init
import RubyDoc.Command.Run

/-!
# Executing a command line

From the arguments to an exit code, the two streams and the files afterwards.  A failure is told as
an error, and its kind decides the exit code.
-/

namespace RubyDoc.Command

/-- The version of the program. -/
def version : Text := "0.3.0"

/-- How a command line ends. -/
inductive Outcome where
  /-- The line cannot be read as a command. -/
  | misused
  /-- The command was carried out, or ended early by a failure. -/
  | ended (exitCode : Nat) (streams : Streams) (files : FileSystem) (failure : Option Failure)
  deriving Repr

/-- The exit code for a line that cannot be read. -/
def misuseCode : Nat := 2

/-- Carries out a request. -/
def perform (w : World) (console : Console) : Request → Action Nat
  | .version => do
      tell (.line ("yardgen " ++ version))
      pure 0
  | .run flags => run w console flags
  | .init flags => init w flags

/-- The message about a failure. -/
def failureMessage (w : World) : Failure → Message
  | .unexpected => .error (Failure.unexpected.message ++ " Debug log: " ++ w.log)
  | f => .error (f.message ++ w.details f)

/-- Executes a command line on files. -/
def execute (w : World) (files : FileSystem) (arguments : List Text) : Outcome :=
  match w.readLine arguments with
  | none => .misused
  | some (console, request) =>
      let start : Session :=
        { files, lookups := { reportFailure := w.environment.reportsLookups } }
      match (perform w console request).run.run start with
      | (.ok code, s) => .ended code (console.tellAll s.messages) s.files none
      | (.error f, s) =>
          let streams := console.tellAll (s.messages ++ [failureMessage w f])
          .ended f.exitCode streams s.files (some f)

end RubyDoc.Command
