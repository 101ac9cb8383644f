import RubyDoc.Syntax.Source

/-!
# Constant paths

Constants are named by paths such as `Billing::Invoice`; a leading `::` anchors a path at the root.
A path is known only if each of its segments is a constant.
-/

namespace RubyDoc.Analysis

open RubyDoc.Syntax

/-- What separates the segments of a path, and anchors it when it comes first. -/
def pathSeparator : Text := "::"

mutual

/-- The full path of a constant reference. -/
def constantPath? (s : Source) : Node → Option Text
  | ⟨kind, _, startByte, endByte, _, _, _, _, children⟩ =>
      match kind with
      | .constant => some (s.slice startByte endByte)
      | .scopeResolution =>
          match children.find? fun c => c.field = some .name with
          | some last =>
              if last.kind = .constant then (scopePath? s children).map (· ++ s.textOf last)
              else none
          | none => none
      | _ => none

/-- What stands before the last segment: the path of the scope, or nothing but the anchor. -/
def scopePath? (s : Source) : List Node → Option Text
  | [] => some pathSeparator
  | c :: cs =>
      if c.field = some .scope then (constantPath? s c).map (· ++ pathSeparator)
      else scopePath? s cs

end

/-- The last segment of a constant reference. -/
def lastSegment? (s : Source) (n : Node) : Option Text :=
  match n.kind with
  | .constant => some (s.textOf n)
  | .scopeResolution =>
      match n.child? .name with
      | some last => if last.kind = .constant then some (s.textOf last) else none
      | none => none
  | _ => none

/-- The container that `segment` opens inside `path`.  An anchored segment leaves the path behind,
and the empty path is the top of the file. -/
def joinContainer (path segment : Text) : Text :=
  if path.isEmpty || segment.startsWith pathSeparator then segment
  else path ++ pathSeparator ++ segment

end RubyDoc.Analysis
