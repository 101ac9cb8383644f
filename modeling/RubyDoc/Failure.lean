import RubyDoc.Text.Quoted
import RubyDoc.Text.Basic

/-!
# Failures

Everything that ends the work on a file or a command early, as a value.  The wording and the exit
code of a failure are functions of it and stand here together.
-/

namespace RubyDoc

/-- How a configuration value misses its type. -/
inductive Mismatch where
  | notBool | unreadableBool | notText | emptyText | notList | notSection | notChoice
  deriving DecidableEq, Repr

/-- A place in a configuration: keys, and positions in lists. -/
inductive Step where
  | key (k : Text)
  | index (i : Nat)
  deriving DecidableEq, Repr

/-- A fault of a configuration: where, and what. -/
structure Fault where
  path : List Step
  mismatch : Mismatch
  deriving DecidableEq, Repr

/-- What a value should have been. -/
def Mismatch.expected : Mismatch → Text
  | notBool | unreadableBool => "true or false"
  | notText => "a text"
  | emptyText => "a text that is not empty"
  | notList => "a list"
  | notSection => "a mapping"
  | notChoice => "one of the names allowed here"

/-- The text of a step in a path. -/
def Step.toText : Step → Text
  | key k => k
  | index i => Text.ofNat i

/-- A fault in words: where, and what should stand there. -/
def Fault.describe (f : Fault) : Text :=
  Text.join "." (f.path.map Step.toText) ++ " is not " ++ f.mismatch.expected

/-- What can go wrong. -/
inductive Failure where
  /-- The file is no Ruby; the line is that of the first fault, if one was found. -/
  | unparsable (file : Text) (line : Option Nat)
  | badYaml (origin : Text)
  /-- The document is not a mapping but a value of the named type. -/
  | notMapping (origin type : Text)
  | badSettings (origin : Text) (faults : List Fault)
  | badPattern (pattern : Text)
  | missingSettings (path : Text)
  | unreadableSettings (path reason : Text)
  | settingsExist (path : Text)
  | refreshAndMerge
  | noInput
  | noMode
  | noFiles
  /-- A fault that nobody foresaw; details go to a log. -/
  | unexpected
  deriving DecidableEq, Repr

namespace Failure

/-- The wording.  What the reader of a document, of settings or of a pattern adds follows it. -/
def message : Failure → Text
  | unparsable file line =>
      "Syntax error in " ++ file ++ (match line with
        | some n => ":" ++ Text.ofNat n
        | none => [])
  | badYaml origin => "Invalid YAML in " ++ origin ++ ": "
  | notMapping origin type =>
      "Invalid config at " ++ origin ++ ": expected a mapping at the top level, got " ++ type
  | badSettings origin _ => "Invalid config at " ++ origin ++ ": "
  | badPattern pattern => "Invalid filter regex " ++ pattern.quoted ++ ": "
  | missingSettings path => "Config file not found: " ++ path
  | unreadableSettings path reason => "Cannot read config file " ++ path ++ ": " ++ reason
  | settingsExist path => "Config already exists: " ++ path ++ " (use --force to overwrite)"
  | refreshAndMerge => "cannot combine --refresh and --merge"
  | noInput => "No input. Use --stdin or pass file paths. See --help."
  | noMode => "No mode selected. Use --dry, --write, or --stdin. See --help."
  | noFiles => "No files found. Pass files or directories (e.g. \x60yardgen run --dry lib\x60)."
  | unexpected => "Unexpected error."

/-- What a reader has to add to the wording of a failure that it met. -/
def details : Failure → Text
  | badYaml _ => "the document cannot be read"
  | badSettings _ faults => Text.join "; " (faults.map Fault.describe)
  | badPattern _ => "the expression cannot be read"
  | _ => []

/-- The exit code of a command that ends with the failure. -/
def exitCode : Failure → Nat
  | unparsable _ _ => 4
  | refreshAndMerge | noInput | noMode => 2
  | _ => 1

end Failure

end RubyDoc
