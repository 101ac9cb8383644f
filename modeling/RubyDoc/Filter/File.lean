import RubyDoc.Filter.Member
import RubyDoc.Path

/-!
# Filtering files

Files are filtered by their paths relative to a root.  Patterns between slashes are regular
expressions; all others form one ignore list.  Exclusion outweighs inclusion, and without patterns
for inclusion every file is included.
-/

namespace RubyDoc.Filter

open Pattern

/-- Patterns ready for use: which paths the ignore list lists, if there are such patterns, and where
the regular expressions are found. -/
structure PathPatterns where
  ignored : Option (Text → Bool)
  regexes : List (Text → Bool)

/-- Prepares patterns; the first rejected regular expression fails, or else a broken ignore list,
which nobody foresees. -/
def PathPatterns.ofList (engine : Engine) (patterns : List Text) : Except Failure PathPatterns := do
  let given := patterns.filter fun p => !p.isEmpty
  let regexes ← (given.filter isRegex).mapM (regexOf engine)
  let lines := given.filter fun p => !isRegex p
  if lines.isEmpty then .ok ⟨none, regexes⟩
  else
    match engine.ignoreList lines with
    | some ignored => .ok ⟨some ignored, regexes⟩
    | none => .error .unexpected

namespace PathPatterns

/-- Were no patterns given?  An ignore list that holds nothing but comments was given. -/
def isEmpty (p : PathPatterns) : Bool :=
  p.ignored.isNone && p.regexes.isEmpty

/-- Does some pattern match the path? -/
def matchesPath (p : PathPatterns) (path : Text) : Bool :=
  p.ignored.any (· path) || p.regexes.any (· path)

end PathPatterns

/-- A filter for files. -/
structure FileFilter where
  includes : PathPatterns
  excludes : PathPatterns

/-- Prepares the filter of the settings. -/
def FileFilter.ofSettings (f : Settings.FileFilter) (engine : Engine := .builtIn) :
    Except Failure FileFilter := do
  let includes ← PathPatterns.ofList engine f.includes
  let excludes ← PathPatterns.ofList engine f.excludes
  .ok ⟨includes, excludes⟩

/-- Does the filter let a path relative to the root pass? -/
def FileFilter.allows (f : FileFilter) (path : Text) : Bool :=
  !f.excludes.matchesPath path && (f.includes.isEmpty || f.includes.matchesPath path)

end RubyDoc.Filter
