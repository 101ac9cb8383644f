import RubyDoc.Settings.Basic
import RubyDoc.Value

/-!
# Settings as data

All settings as one mapping, with the names that settings files use.
-/

namespace RubyDoc.Settings

open Outline

/-- A mapping from the names of settings. -/
def record (entries : List (String × Value)) : Value :=
  .mapping (entries.map fun (key, v) => (.text key, v))

/-- A list of texts. -/
def texts (ts : List Text) : Value :=
  .list (ts.map .text)

/-- A value that may be missing. -/
def optional {α : Type} (f : α → Value) : Option α → Value
  | none => .null
  | some a => f a

/-- One bucket. -/
def Override.toValue (o : Override) : Value :=
  record [("return_tag", optional .bool o.returnTag),
    ("default_message", optional .text o.message)]

/-- The buckets of one scope. -/
def ByVisibility.toValue (b : ByVisibility) : Value :=
  record [("public", b.pub.toValue), ("protected", b.prot.toValue), ("private", b.priv.toValue)]

/-- The section on the parts of a block. -/
def Emit.toValue (e : Emit) : Value :=
  record [("header", .bool e.header), ("description", .bool e.description),
    ("param_tags", .bool e.paramTags), ("return_tag", .bool e.returnTag),
    ("visibility_tags", .bool e.visibilityTags), ("raise_tags", .bool e.raiseTags),
    ("rescue_conditional_returns", .bool e.rescueReturns), ("attributes", .bool e.attributes)]

/-- The section on members. -/
def Filter.toValue (f : Filter) : Value :=
  record [("visibilities", texts (f.visibilities.map Visibility.name)),
    ("scopes", texts (f.scopes.map Scope.name)),
    ("include", texts f.includes), ("exclude", texts f.excludes),
    ("files", record [("include", texts f.files.includes), ("exclude", texts f.files.excludes)])]

/-- All settings. -/
def toValue (s : Settings) : Value :=
  record [("emit", s.emit.toValue),
    ("doc", record [("default_message", .text s.doc.message)]),
    ("methods", record [("instance", s.methods.onInstance.toValue),
      ("class", s.methods.onClass.toValue)]),
    ("inference", record [("fallback_type", .text s.inference.fallback),
      ("nil_as_optional", .bool s.inference.nilAsOptional),
      ("treat_options_keyword_as_hash", .bool s.inference.optionsAsHash)]),
    ("filter", s.filter.toValue),
    ("signatures", record [("enabled", .bool s.signatures.enabled),
      ("sig_dirs", texts s.signatures.directories),
      ("collapse_generics", .bool s.signatures.collapse)])]

end RubyDoc.Settings
