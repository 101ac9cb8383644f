import RubyDoc.Command.Option
import RubyDoc.Console
import RubyDoc.Settings.Overrides

/-!
# The command line

Options before the command concern the console; each command has options of its own.  Reading a
command line gives the request as data, or nothing if the line is misused.
-/

namespace RubyDoc.Command

/-- The options before the command. -/
structure GlobalFlags where
  version : Bool := false
  quiet : Bool := false
  verbose : Bool := false
  deriving DecidableEq, Repr

/-- What a run is asked for. -/
structure RunFlags where
  paths : List Text := []
  /-- Report what would change and write nothing. -/
  check : Bool := false
  write : Bool := false
  refresh : Bool := false
  join : Bool := false
  /-- Read one text from the input and write it to the output. -/
  filter : Bool := false
  settingsFile : Option Text := none
  signatures : Bool := false
  directories : List Text := []
  includes : List Text := []
  excludes : List Text := []
  includeFiles : List Text := []
  excludeFiles : List Text := []
  deriving DecidableEq, Repr

/-- How a settings file is to be made. -/
structure InitFlags where
  path : Text := "yardgen.yml"
  force : Bool := false
  /-- Write to the output instead. -/
  toOutput : Bool := false
  deriving DecidableEq, Repr

/-- What a command line asks for. -/
inductive Request where
  | version
  | run (flags : RunFlags)
  | init (flags : InitFlags)
  deriving DecidableEq, Repr

/-- The options before the command. -/
def globalOptions : OptionSet GlobalFlags where
  interspersed := false
  options := [
    ⟨["--version"], .switch fun f => { f with version := true }⟩,
    ⟨["--no-color"], .switch id⟩,
    ⟨["--quiet", "-q"], .switch fun f => { f with quiet := true }⟩,
    ⟨["--verbose", "-v"], .switch fun f => { f with verbose := true }⟩]

/-- The options of a run. -/
def runOptions : OptionSet RunFlags where
  interspersed := true
  options := [
    ⟨["--dry", "--check", "-d", "-c"], .switch fun f => { f with check := true }⟩,
    ⟨["--write", "-w"], .switch fun f => { f with write := true }⟩,
    ⟨["--refresh", "-r"], .switch fun f => { f with refresh := true }⟩,
    ⟨["--merge", "-m"], .switch fun f => { f with join := true }⟩,
    ⟨["--stdin"], .switch fun f => { f with filter := true }⟩,
    ⟨["--config", "-C"], .withValue fun v f => { f with settingsFile := some v }⟩,
    ⟨["--rbs"], .switch fun f => { f with signatures := true }⟩,
    ⟨["--sig-dir"], .withValue fun v f => { f with directories := f.directories ++ [v] }⟩,
    ⟨["--include"], .withValue fun v f => { f with includes := f.includes ++ [v] }⟩,
    ⟨["--exclude"], .withValue fun v f => { f with excludes := f.excludes ++ [v] }⟩,
    ⟨["--include-file"], .withValue fun v f => { f with includeFiles := f.includeFiles ++ [v] }⟩,
    ⟨["--exclude-file"], .withValue fun v f => { f with excludeFiles := f.excludeFiles ++ [v] }⟩]

/-- The options for making a settings file. -/
def initOptions : OptionSet InitFlags where
  interspersed := true
  options := [
    ⟨["--config", "-C"], .withValue fun v f => { f with path := v }⟩,
    ⟨["--force", "-f"], .switch fun f => { f with force := true }⟩,
    ⟨["--stdout"], .switch fun f => { f with toOutput := true }⟩]

/-- Reads the command and what follows it. -/
def readCommand (name : Text) (arguments : List Text) : Option Request :=
  if name = Text.ofString "run" then do
    let (paths, flags) ← runOptions.read arguments {}
    some (.run { flags with paths })
  else if name = Text.ofString "init" then do
    let (others, flags) ← initOptions.read arguments {}
    if others.isEmpty then some (.init flags) else none
  else none

/-- Reads a command line. -/
def readLine (arguments : List Text) : Option (Console × Request) := do
  let (rest, flags) ← globalOptions.read arguments {}
  let console : Console := { quiet := flags.quiet, verbose := flags.verbose }
  if flags.version then some (console, .version)
  else match rest with
    | [] => none
    | name :: arguments => (readCommand name arguments).map fun request => (console, request)

/-- Does the request need the standard input? -/
def Request.readsInput : Request → Bool
  | .run flags => flags.filter
  | _ => false

/-- What the options of a run add to the settings. -/
def RunFlags.overrides (f : RunFlags) : Settings.Overrides :=
  let (includes, includeFiles) := Settings.sortPatterns f.includes
  let (excludes, excludeFiles) := Settings.sortPatterns f.excludes
  { includes, excludes
    includeFiles := includeFiles ++ f.includeFiles
    excludeFiles := excludeFiles ++ f.excludeFiles
    signatures := f.signatures
    directories := f.directories }

end RubyDoc.Command
