import RubyDoc.Comment.Line
import RubyDoc.Text.Lines

/-!
# The comment above a line

The comment that belongs to a line is the block of comment lines nearest above it, blank lines in
between passed over.  What replaces or extends a comment depends on its leading directives and on
whether anything after them marks it as documentation.
-/

namespace RubyDoc.Comment

/-- Comment lines that follow each other, top to bottom.  There is at least one. -/
structure Run where
  first : Line
  rest : List Line := []
  deriving DecidableEq, Repr

namespace Run

/-- All lines of the run. -/
def all (r : Run) : List Line :=
  r.first :: r.rest

/-- What the lines say, top to bottom. -/
def texts (r : Run) : List Text :=
  r.all.map Line.text

/-- The offset of the first line. -/
def start (r : Run) : Nat :=
  r.first.start

/-- The offset just past the last line. -/
def stop (r : Run) : Nat :=
  (r.rest.getLast?.getD r.first).stop

/-- The lines after the leading directives. -/
def afterDirectives (r : Run) : List Line :=
  r.all.dropWhile fun l => isDirective l.text

/-- Is the run documentation: does a line after the leading directives mark it so? -/
def isDocumentation (r : Run) : Bool :=
  r.afterDirectives.any fun l => isMarker l.text

end Run

/-- The run at the end of a list of lines given bottom to top, blank lines passed over. -/
def runOfReversed? (upwards : List Line) : Option Run :=
  let block := (upwards.dropWhile fun l => l.text.isBlank).takeWhile fun l => isComment l.text
  match block.reverse with
  | [] => none
  | first :: rest => some { first, rest }

/-- The run above the line that starts at `bol`. -/
def runAbove? (t : Text) (bol : Nat) : Option Run :=
  runOfReversed? (Text.completeLines (t.take bol)).reverse

/-- The documentation above the line that starts at `bol`, with its leading directives. -/
def documentationAbove? (t : Text) (bol : Nat) : Option Run :=
  (runAbove? t bol).filter Run.isDocumentation

/-- What gives way to new documentation: everything from `start` on, of which `kept` is written
again. -/
structure Removal where
  start : Nat
  kept : List Text
  deriving DecidableEq, Repr

/-- What gives way to new documentation above the line that starts at `bol`.  The leading directives
stay where they are, directives further down are kept. -/
def removalAbove? (t : Text) (bol : Nat) : Option Removal :=
  match (documentationAbove? t bol).map Run.afterDirectives with
  | some (first :: rest) =>
      some ⟨first.start, ((first :: rest).map Line.text).filter isDirective⟩
  | _ => none

/-- Where documentation goes that joins a plain comment: above it if it touches the line that starts
at `bol`, else directly above the line. -/
def placeAbovePlain (t : Text) (bol : Nat) : Nat :=
  match runAbove? t bol with
  | some r => if r.stop = bol then r.start else bol
  | none => bol

end RubyDoc.Comment
