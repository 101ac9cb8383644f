import RubyDoc.Path
import RubyDoc.Text.Quoted
import RubyDoc.Text.Utf8.Fault

/-!
# Files

The files below the working directory, by the names that lead to them, with their contents.  A
directory exists if it is listed or if something is in it.  A path is followed name by name; two
dots lead back up, and nothing is known of what lies outside the working directory.  Not every file
may be read.
-/

namespace RubyDoc

/-- The names that lead from the working directory to a place. -/
abbrev Location := List Text

/-- The files and directories below the working directory. -/
structure FileSystem where
  files : List (Location × Text)
  directories : List Location := []
  /-- The files that may not be read. -/
  locked : List Location := []
  deriving DecidableEq, Repr

/-- Why nothing can be read at a place. -/
inductive ReadFault where
  | missing | isDirectory | locked
  /-- The content is not well encoded. -/
  | badEncoding (fault : Utf8.Fault)
  deriving DecidableEq, Repr

/-- A content without stray bytes, or the first fault of its encoding. -/
def wellEncoded (content : Text) : Except Utf8.Fault Text :=
  match Utf8.firstFault? (Utf8.encode content) with
  | none => .ok content
  | some fault => .error fault

/-- The kind of a fault. -/
def ReadFault.kind : ReadFault → Text
  | missing => "FileNotFoundError"
  | isDirectory => "IsADirectoryError"
  | locked => "PermissionError"
  | badEncoding _ => "UnicodeDecodeError"

/-- The wording of a fault that was met at a path. -/
def ReadFault.message (p : Path) : ReadFault → Text
  | missing => "[Errno 2] No such file or directory: " ++ p.toText.quoted
  | isDirectory => "[Errno 21] Is a directory: " ++ p.toText.quoted
  | locked => "[Errno 13] Permission denied: " ++ p.toText.quoted
  | badEncoding fault => fault.message

namespace FileSystem

/-- Is `place` below `directory`, and not the directory itself? -/
def isBelow (directory place : Location) : Bool :=
  directory.isPrefixOf place && directory.length < place.length

/-- Is there a directory at a place? -/
def isDirectory (fs : FileSystem) (place : Location) : Bool :=
  place.isEmpty || fs.directories.any place.isPrefixOf ||
    fs.files.any fun file => isBelow place file.1

/-- The content of the file at a place. -/
def file? (fs : FileSystem) (place : Location) : Option Text :=
  fs.files.lookup place

/-- Is there a file at a place? -/
def isFile (fs : FileSystem) (place : Location) : Bool :=
  (fs.file? place).isSome

/-- Is there anything at a place? -/
def holds (fs : FileSystem) (place : Location) : Bool :=
  fs.isDirectory place || fs.isFile place

/-- Follows names from a place on; every place that the way goes on from must be passable. -/
def follow (passable : Location → Bool) : (place : Location) → List Text → Option Location
  | place, [] => some place
  | place, name :: rest =>
      if !passable place then none
      else if name = Path.above then
        if place.isEmpty then none else follow passable place.dropLast rest
      else follow passable (place ++ [name]) rest

/-- The names of a path as seen from the working directory, if the path stays within it. -/
def namesWithin (root p : Path) : Option (List Text) :=
  if !p.isAbsolute then some p.names
  else if p.root = root.root ∧ root.names.isPrefixOf p.names then
    some (p.names.drop root.names.length)
  else none

/-- The place that a path leads to. -/
def locate (fs : FileSystem) (root p : Path) : Option Location := do
  follow fs.isDirectory [] (← namesWithin root p)

/-- The place that a path leads to once missing directories are made. -/
def locateNew (fs : FileSystem) (root p : Path) : Option Location := do
  follow (fun place => !fs.isFile place) [] (← namesWithin root p)

/-- Puts a content at a place. -/
def put (fs : FileSystem) (place : Location) (content : Text) : FileSystem :=
  { fs with
    files :=
      if fs.isFile place then
        fs.files.map fun file => if file.1 = place then (place, content) else file
      else fs.files ++ [(place, content)] }

/-- The content of the file that a path leads to. -/
def read (fs : FileSystem) (root p : Path) : Except ReadFault Text :=
  match fs.locate root p with
  | none => .error .missing
  | some place =>
      match fs.file? place with
      | none => .error (if fs.isDirectory place then .isDirectory else .missing)
      | some content =>
          if place ∈ fs.locked then .error .locked
          else (wellEncoded content).mapError .badEncoding

/-- Writes to the file that a path leads to. -/
def write (fs : FileSystem) (root p : Path) (content : Text) : FileSystem :=
  match fs.locate root p with
  | none => fs
  | some place => fs.put place content

/-- All places that lead to a place, the working directory left out. -/
def waysTo (place : Location) : List Location :=
  (List.range place.length).map fun n => place.take (n + 1)

/-- All places where there is something. -/
def places (fs : FileSystem) : List Location :=
  ((fs.directories ++ fs.files.map Prod.fst).flatMap waysTo).eraseDups

/-- The names that lead from a directory to everything below it whose name ends in `ending`. -/
def namesBelow (fs : FileSystem) (directory : Location) (ending : Text) : List (List Text) :=
  (fs.places.filter fun place =>
    isBelow directory place && (place.getLast?.getD []).endsWith ending).map
    (·.drop directory.length)

/-- The paths of everything below a directory whose name ends in `ending`. -/
def pathsBelow (fs : FileSystem) (root directory : Path) (ending : Text) : List Path :=
  match fs.locate root directory with
  | some place =>
      (fs.namesBelow place ending).map fun names =>
        { directory with names := directory.names ++ names }
  | none => []

end FileSystem

end RubyDoc
