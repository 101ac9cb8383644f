import RubyDoc.Edit.Planning
import RubyDoc.Outline.Walk
import RubyDoc.Syntax.Grammar

/-!
# Documenting a text

From a Ruby text to the same text with documentation: find the definitions in its tree, plan the
edits, carry them out.
-/

namespace RubyDoc.Edit

open Signature Syntax

/-- What documenting depends on besides the text. -/
structure Task where
  grammar : Grammar
  mode : Mode := .insert
  settings : Settings := {}
  provider : Option Provider := none
  /-- The name of the text in reports. -/
  file : Text := "(inline)"
  reportTrouble : Bool := false
  /-- What reads the patterns of the settings. -/
  engine : Pattern.Engine := .builtIn

namespace Task

/-- The builder of blocks for a text. -/
def builder (task : Task) (source : Source) : Block.Builder where
  source := source
  settings := task.settings
  provider := task.provider
  file := task.file
  reportTrouble := task.reportTrouble
  engine := task.engine

/-- The plans for a text. -/
def plans (task : Task) (source : Source) : ExceptT Failure (StateM Lookups) (List Plan) := do
  let root ← (task.grammar.parse task.file source.text : Except Failure Node)
  planAll (task.builder source) task.mode (Outline.definitions source root)

/-- The text with documentation. -/
def document (task : Task) (text : Text) : ExceptT Failure (StateM Lookups) Text := do
  let plans ← task.plans (Source.ofText text)
  pure (apply text plans)

/-- The text with documentation; a text that is no Ruby stays as it is. -/
def documentOrKeep (task : Task) (text : Text) : ExceptT Failure (StateM Lookups) Text :=
  ExceptT.mk do
    match ← (task.document text).run with
    | .error (.unparsable _ _) => pure (.ok text)
    | r => pure r

end Task

end RubyDoc.Edit
