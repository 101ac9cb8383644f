import RubyDoc.Pattern.Ignore
import RubyDoc.Pattern.Regex.Reader

/-!
# Pattern engines

What regular expressions and ignore lists mean is for an engine to say.  Filters only decide which
pattern is tried on what, and when; whatever holds of them holds with every engine.  The built-in
engine reads the everyday part of both notations and rejects the rest.
-/

namespace RubyDoc.Pattern

/-- Why there is no use for a regular expression. -/
inductive Rejection where
  /-- It is not well-formed. -/
  | malformed
  /-- Reading it went wrong in a way that nobody foresaw. -/
  | unforeseen
  deriving DecidableEq, Repr

/-- What reads patterns.  The same text is always read in the same way. -/
structure Engine where
  /-- Reads a regular expression: in which texts is it found? -/
  regex : Text → Except Rejection (Text → Bool)
  /-- Reads the lines of an ignore list: which paths are listed?  None if a line is broken. -/
  ignoreList : List Text → Option (Text → Bool)

/-- The engine of the library itself. -/
def Engine.builtIn : Engine where
  regex t :=
    match Regex.ofText? t with
    | some r => .ok r.search
    | none => .error .malformed
  ignoreList lines := (Ignore.rules? lines).map Ignore.lists

end RubyDoc.Pattern
