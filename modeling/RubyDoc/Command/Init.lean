import RubyDoc.Command.Session
import RubyDoc.Settings.Template

/-!
# Making a settings file

The template is written to the path asked for, unless something is there already and must not be
overwritten.
-/

namespace RubyDoc.Command

/-- Writes a content to a path, missing directories being made. -/
def writeNew (w : World) (p : Path) (content : Text) : Action Unit := do
  let files := (← get).files
  match files.locateNew w.root p with
  | none => throw .unexpected
  | some place =>
      if files.isDirectory place then throw .unexpected
      else modify fun s => { s with files := s.files.put place content }

/-- Makes a settings file. -/
def init (w : World) (flags : InitFlags) : Action Nat := do
  if flags.toOutput then
    tell (.raw Settings.template)
    pure 0
  else
    let p := Path.ofText flags.path
    let files := (← get).files
    tell (.info ("Writing default configuration to " ++ p.toText))
    if (files.locate w.root p).any files.holds && !flags.force then
      throw (.settingsExist p.toText)
    writeNew w p Settings.template
    tell (.success ("Created " ++ p.toText))
    tell (.suggestion
      ("Document your code: yardgen run --dry --config " ++ p.toText ++ " lib"))
    pure 0

end RubyDoc.Command
