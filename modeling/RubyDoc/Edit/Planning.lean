import RubyDoc.Edit.Plan
import RubyDoc.Comment.Run
import RubyDoc.Block.Builder
import RubyDoc.Filter.Member

/-!
# Planning

Which edits document the definitions of a file.  All plans refer to the text as it is.  Inserting
leaves commented definitions alone; replacing renews documentation; merging adds what documentation
lacks.  A comment that is no documentation is never removed.
-/

namespace RubyDoc.Block.Builder

/-- May a definition be documented under the settings? -/
def allows (b : Builder) (d : Outline.Definition) : Except Failure Bool :=
  Filter.allows b.settings d b.engine

end RubyDoc.Block.Builder

namespace RubyDoc.Edit

open Outline Signature Block

/-- What happens to comments that are already there. -/
inductive Mode where
  | insert | replace | merge
  deriving DecidableEq, Repr

namespace Mode

/-- The modes. -/
def all : List Mode := [insert, replace, merge]

/-- The name of a mode. -/
def name : Mode → Text
  | insert => "insert"
  | replace => "replace"
  | merge => "merge"

/-- The mode of a name. -/
def ofName? (name : Text) : Option Mode :=
  all.find? fun m => m.name = name

/-- The mode that two switches select; they exclude each other. -/
def select (refresh join : Bool) : Except Failure Mode :=
  match refresh, join with
  | true, true => .error .refreshAndMerge
  | true, false => .ok replace
  | false, true => .ok merge
  | false, false => .ok insert

end Mode

/-- The start of the line that a definition stands on. -/
def lineOf (b : Builder) (d : Definition) : Nat :=
  b.source.text.lineStart (b.source.startOf d.node)

/-- The plan for a definition without a comment. -/
def planInsert (b : Builder) (d : Definition) : StateM Lookups (Option Plan) := do
  let bol := lineOf b d
  let indent := b.source.text.indentAt bol
  if (Comment.runAbove? b.source.text bol).isSome then pure none
  else do
    let lines ← b.block d indent
    pure (if lines.isEmpty then none else some { start := bol, stop := bol, lines, indent })

/-- The plan that renews the documentation of a definition. -/
def planReplace (b : Builder) (d : Definition) : StateM Lookups (Option Plan) := do
  let bol := lineOf b d
  let indent := b.source.text.indentAt bol
  let lines ← b.block d indent
  if lines.isEmpty then pure none
  else
    match Comment.removalAbove? b.source.text bol with
    | none => pure (some { start := bol, stop := bol, lines, indent })
    | some r => pure (some { start := r.start, stop := bol, lines, indent, kept := r.kept })

/-- The plan that completes the documentation of a definition. -/
def planMerge (b : Builder) (d : Definition) : StateM Lookups (Option Plan) := do
  let bol := lineOf b d
  let indent := b.source.text.indentAt bol
  match Comment.documentationAbove? b.source.text bol with
  | some run => do
      let lines ← b.additions d run.texts indent
      pure (if lines.isEmpty then none
        else some { start := run.stop, stop := run.stop, lines, indent, joins := true })
  | none => do
      let lines ← b.block d indent
      let place := Comment.placeAbovePlain b.source.text bol
      pure (if lines.isEmpty then none else some { start := place, stop := place, lines, indent })

/-- The plan for a definition. -/
def plan (b : Builder) : Mode → Definition → StateM Lookups (Option Plan)
  | .insert => planInsert b
  | .replace => planReplace b
  | .merge => planMerge b

/-- The plans for definitions one after another, those that the filters reject left out. -/
def planEach (b : Builder) (mode : Mode) :
    List Definition → ExceptT Failure (StateM Lookups) (List Plan)
  | [] => pure []
  | d :: rest => do
      if ← (b.allows d : Except Failure Bool) then do
        let here ← (plan b mode d : StateM Lookups (Option Plan))
        let later ← planEach b mode rest
        pure (here.toList ++ later)
      else planEach b mode rest

/-- The order of definitions in a text. -/
def inTextOrder (ds : List Definition) : List Definition :=
  ds.mergeSort fun a b => a.node.startByte ≤ b.node.startByte

/-- The plans for the definitions of a file, in the order of the text. -/
def planAll (b : Builder) (mode : Mode) (ds : List Definition) :
    ExceptT Failure (StateM Lookups) (List Plan) :=
  planEach b mode (inTextOrder ds)

end RubyDoc.Edit
