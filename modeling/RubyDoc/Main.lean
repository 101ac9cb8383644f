import RubyDoc.Command.Execute
import RubyDoc.Command.Listings

/-!
# The program

Gathers what a command sees (the files below the working directory, the environment, the standard
input), executes the command line, and puts the outcome into effect.
-/

namespace RubyDoc.Program

/-- The bytes of a text. -/
def bytesOf (t : Text) : ByteArray :=
  ⟨(Utf8.encode t).toArray⟩

/-- Adds an entry of the directory at `place`, and everything below it, to the files. -/
partial def gather (place : Location) (files : FileSystem) (entry : IO.FS.DirEntry) :
    IO FileSystem := do
  let here := place ++ [Text.ofString entry.fileName]
  match (← entry.path.symlinkMetadata).type with
  | .dir =>
      let files := { files with directories := here :: files.directories }
      (← entry.path.readDir).foldlM (gather here) files
  | .file =>
      match ← (IO.FS.readBinFile entry.path).toBaseIO with
      | .ok content =>
          pure { files with files := (here, Utf8.decode content.toList) :: files.files }
      | .error _ =>
          pure { files with files := (here, []) :: files.files, locked := here :: files.locked }
  | _ => pure files

/-- The files below the working directory. -/
def filesBelow : IO FileSystem := do
  (← (← IO.currentDir).readDir).foldlM (gather []) { files := [] }

/-- The variables that decide about a run. -/
def variableNames : List String :=
  ["YARDGEN_CONFIG", "YARDGEN_DEBUG", "YARDGEN_RBS_DEBUG", "XDG_DATA_HOME", "HOME"]

/-- The environment, as far as it decides about a run. -/
def environment : IO Environment :=
  variableNames.filterMapM fun name => do
    pure ((← IO.getEnv name).map fun value => (Text.ofString name, Text.ofString value))

/-- The text at the standard input, if the command line asks for it. -/
def inputFor (arguments : List Text) : IO Text := do
  if (Command.readLine arguments).any fun line => line.2.readsInput then
    pure (Utf8.decode (← (← IO.getStdin).readBinToEnd).toList)
  else pure []

/-- The place for details about an unforeseen failure. -/
def logPath (env : Environment) : Path :=
  let home := Path.ofText ((env.get? "HOME").getD [])
  (env.dataDirectory "Linux" home).join (.ofText "logs/crash.log")

/-- What a command sees. -/
def worldFor (files : FileSystem) (arguments : List Text) : IO Command.World := do
  let environment ← environment
  let input ← inputFor arguments
  pure { grammar := Command.listedGrammar files input
         root := .ofText (.ofString (← IO.currentDir).toString)
         environment, input
         log := (logPath environment).toText }

/-- Writes a file, missing directories being made. -/
def save (p : Path) (content : Text) : IO Unit := do
  IO.FS.createDirAll (p.parent.toText.toString?.getD "")
  IO.FS.writeBinFile (p.toText.toString?.getD "") (bytesOf content)

/-- Writes the files that a command made or changed. -/
def saveChanges (before after : FileSystem) : IO Unit :=
  after.files.forM fun (place, content) =>
    if before.file? place = some content then pure () else save ⟨[], place⟩ content

end RubyDoc.Program

open RubyDoc Program in
/-- Executes the command line of the process. -/
def main (words : List String) : IO UInt32 := do
  let arguments := words.map Text.ofString
  let files ← filesBelow
  let world ← worldFor files arguments
  match Command.execute world files arguments with
  | .misused =>
      (← IO.getStderr).putStrLn "Usage: yardgen [--quiet] [--verbose] run|init [OPTIONS] [PATHS]"
      pure (UInt32.ofNat Command.misuseCode)
  | .ended code streams after failure =>
      saveChanges files after
      (← IO.getStdout).write (bytesOf streams.data)
      (← IO.getStderr).write (bytesOf streams.diagnostics)
      if failure = some .unexpected then
        save (.ofText world.log) (Text.join " " arguments)
      pure (UInt32.ofNat code)
