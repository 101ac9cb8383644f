import RubyDoc.Settings.Reading
import RubyDoc.Yaml.Document

/-!
# Settings documents

A settings file is a YAML document that holds a mapping; an empty document stands for the defaults.
What a document says is for a reader of documents to decide, and only then for the settings.
-/

namespace RubyDoc.Settings

/-- The settings that a value describes, `origin` being named in failures. -/
def ofData (origin : Text) (v : Value) : Except Failure Settings :=
  match v with
  | .null => .ok {}
  | .mapping _ =>
      match ofValue v with
      | .ok s => .ok s
      | .error faults => .error (.badSettings origin faults)
  | _ => .error (.notMapping origin v.typeName)

/-- The settings that a document describes, once it is read. -/
def ofDocument (origin t : Text) (read : Text → Except Yaml.Trouble Value := Yaml.read) :
    Except Failure Settings :=
  match read t with
  | .ok v => ofData origin v
  | .error .malformed => .error (.badYaml origin)
  | .error .noSuchValue => .error .unexpected

end RubyDoc.Settings
