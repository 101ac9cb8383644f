import RubyDoc.Text.Lines
import RubyDoc.Comment.Line

/-!
# Planned edits

A plan says which range of a text gives way to which lines.  Plans for one range are carried out
together: whole blocks first, then what joins an existing comment, then the lines kept from what is
replaced.  Ranges are replaced from the end of the text towards its start, so that the offsets of
the ranges still to come keep their meaning.
-/

namespace RubyDoc.Edit

/-- One planned edit: new lines for the range from `start` to `stop`. -/
structure Plan where
  start : Nat
  stop : Nat
  /-- The new lines, indented and without terminators. -/
  lines : List Text
  /-- The indentation of the definition that the lines belong to. -/
  indent : Text
  /-- The lines join an existing comment. -/
  joins : Bool := false
  /-- Lines written again after the new ones. -/
  kept : List Text := []
  deriving DecidableEq, Repr

/-- A range of offsets. -/
structure Range where
  start : Nat
  stop : Nat
  deriving DecidableEq, Repr

namespace Plan

/-- The range that the plan replaces. -/
def range (p : Plan) : Range :=
  ⟨p.start, p.stop⟩

end Plan

/-- Whole blocks one after another, with an empty comment line between neighbours. -/
def stackBlocks : List Plan → List Text
  | [] => []
  | first :: rest =>
      first.lines ++ rest.flatMap fun p => (p.indent ++ [Sym.char '#']) :: p.lines

/-- Adds lines that join a comment.  Of two empty comment lines that would meet, one is left. -/
def addJoining (lines joining : List Text) : List Text :=
  let meets := lines.getLast?.any Comment.isEmptyComment && joining.head?.any Comment.isEmptyComment
  lines ++ if meets then joining.drop 1 else joining

/-- The lines that the plans of one range put in its place. -/
def groupLines (plans : List Plan) : List Text :=
  let blocks := stackBlocks (plans.filter fun p => !p.joins)
  let joined := (plans.filter fun p => p.joins).foldl (fun acc p => addJoining acc p.lines) blocks
  joined ++ ((plans.find? fun p => !p.kept.isEmpty).map Plan.kept).getD []

/-- The order in which ranges are replaced: the later one first. -/
def Range.isLater (a b : Range) : Bool :=
  a.stop > b.stop || (a.stop = b.stop && a.start ≥ b.start)

/-- The distinct ranges of the plans, the latest first. -/
def ranges (plans : List Plan) : List Range :=
  (plans.map Plan.range).eraseDups.mergeSort Range.isLater

/-- Lines with their terminators. -/
def terminated (newline : Text) (lines : List Text) : Text :=
  lines.flatMap (· ++ newline)

/-- Replaces one range by lines; no lines leave the range alone. -/
def replaceRange (newline : Text) (text : Text) (r : Range) (lines : List Text) : Text :=
  if lines.isEmpty then text
  else text.take r.start ++ terminated newline lines ++ text.drop r.stop

/-- The text with all plans carried out.  New lines end like the lines of the text. -/
def apply (text : Text) (plans : List Plan) : Text :=
  (ranges plans).foldl (fun t r =>
    replaceRange text.newline t r (groupLines (plans.filter fun p => p.range = r))) text

end RubyDoc.Edit
