import RubyDoc.Settings.Basic
import RubyDoc.Filter.Member

/-!
# Settings from the command line

Flags of a run add patterns and signature directories to the settings; they never take any away.
-/

namespace RubyDoc.Settings

/-- What the flags of a run add. -/
structure Overrides where
  includes : List Text := []
  excludes : List Text := []
  includeFiles : List Text := []
  excludeFiles : List Text := []
  signatures : Bool := false
  directories : List Text := []
  deriving DecidableEq, Repr

namespace Overrides

/-- Do the flags add nothing? -/
def isEmpty (o : Overrides) : Bool :=
  o.includes.isEmpty && o.excludes.isEmpty && o.includeFiles.isEmpty && o.excludeFiles.isEmpty &&
    !o.signatures && o.directories.isEmpty

/-- Adds the directories that are not there yet. -/
def addDirectories (known : List Text) (more : List Text) : List Text :=
  more.foldl (fun ds d => if ds.contains d then ds else ds ++ [d]) known

/-- The settings with what the flags add.  Any directory also turns signatures on. -/
def applyTo (o : Overrides) (s : Settings) : Settings :=
  { s with
    filter := { s.filter with
      includes := s.filter.includes ++ o.includes
      excludes := s.filter.excludes ++ o.excludes
      files := {
        includes := s.filter.files.includes ++ o.includeFiles
        excludes := s.filter.files.excludes ++ o.excludeFiles } }
    signatures := { s.signatures with
      enabled := s.signatures.enabled || o.signatures || !o.directories.isEmpty
      directories := addDirectories s.signatures.directories o.directories } }

end Overrides

/-- Is the pattern meant for files?  Regular expressions never are; other patterns are if they hold
a separator or a double star, or end like a Ruby file. -/
def isFilePattern (pattern : Text) : Bool :=
  !Filter.isRegex pattern &&
    (Text.contains pattern "/" || Text.contains pattern "**" || pattern.endsWith ".rb")

/-- Patterns sorted into those for members and those for files. -/
def sortPatterns (patterns : List Text) : List Text × List Text :=
  (patterns.filter fun p => !isFilePattern p, patterns.filter isFilePattern)

end RubyDoc.Settings
