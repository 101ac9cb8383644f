import RubyDoc.FileSystem
import RubyDoc.Signature.Index

/-!
# Signature files

The signature files below the configured directories, in the order of the directories and within
each in the order of their paths.  Either all of them are read into one index, or the first that
cannot be read makes every lookup fail.
-/

namespace RubyDoc.Signature

/-- The ending of the names of signature files. -/
def fileEnding : Text := ".rbs"

/-- The paths of the signature files below directories; missing directories hold none. -/
def filesIn (fs : FileSystem) (root : Path) (directories : List Text) : List Path :=
  directories.flatMap fun d =>
    (fs.pathsBelow root (root.join (.ofText d)) fileEnding).mergeSort Path.le

/-- The text of a signature file, every line ending written as a line feed. -/
def readFile (fs : FileSystem) (root p : Path) : Except Trouble Text :=
  match fs.read root p with
  | .ok t => .ok t.unifyNewlines
  | .error fault => .error ⟨fault.kind, fault.message p⟩

/-- The index of all signature files. -/
def indexFiles (fs : FileSystem) (root : Path) (collapse : Bool) (files : List Path) :
    Except Trouble Index :=
  files.foldlM (fun index p => (readFile fs root p).map (index.addText collapse)) []

/-- The signatures below directories as a provider. -/
def Provider.ofDirectories (fs : FileSystem) (root : Path) (directories : List Text)
    (collapse : Bool) : Provider :=
  let files := filesIn fs root directories
  match indexFiles fs root collapse files with
  | .ok index => index.provider files.length
  | .error t => { answer := fun _ _ => .error t }

end RubyDoc.Signature
