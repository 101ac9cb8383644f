import RubyDoc.Outline.Definition

/-!
# Settings

What can be configured, section by section, each value with its default.  Settings that depend on
the scope and visibility of a member are looked up in the bucket of that member first.
-/

namespace RubyDoc

open Outline

namespace Settings

/-- Which parts of a block are written. -/
structure Emit where
  header : Bool := true
  description : Bool := true
  paramTags : Bool := true
  returnTag : Bool := true
  visibilityTags : Bool := true
  raiseTags : Bool := true
  rescueReturns : Bool := true
  attributes : Bool := false
  deriving DecidableEq, Repr

/-- Texts that blocks are filled with. -/
structure Doc where
  message : Text := "Method documentation."
  deriving DecidableEq, Repr

/-- What differs for the members of one bucket; none keeps the general setting. -/
structure Override where
  returnTag : Option Bool := none
  message : Option Text := none
  deriving DecidableEq, Repr

/-- One bucket for each visibility. -/
structure ByVisibility where
  pub : Override := {}
  prot : Override := {}
  priv : Override := {}
  deriving DecidableEq, Repr

/-- The buckets of both scopes. -/
structure Methods where
  onInstance : ByVisibility := {}
  onClass : ByVisibility := {}
  deriving DecidableEq, Repr

/-- How types are guessed. -/
structure Inference where
  fallback : Text := "Object"
  nilAsOptional : Bool := true
  optionsAsHash : Bool := true
  deriving DecidableEq, Repr

/-- Which files are worked on. -/
structure FileFilter where
  includes : List Text := []
  excludes : List Text := []
  deriving DecidableEq, Repr

/-- Which members are documented. -/
structure Filter where
  visibilities : List Visibility := Visibility.all
  scopes : List Scope := Scope.all
  includes : List Text := []
  excludes : List Text := []
  files : FileFilter := {}
  deriving DecidableEq, Repr

/-- Whether and where signatures are looked up. -/
structure Signatures where
  enabled : Bool := false
  directories : List Text := ["sig"]
  collapse : Bool := false
  deriving DecidableEq, Repr

end Settings

/-- All settings. -/
structure Settings where
  emit : Settings.Emit := {}
  doc : Settings.Doc := {}
  methods : Settings.Methods := {}
  inference : Settings.Inference := {}
  filter : Settings.Filter := {}
  signatures : Settings.Signatures := {}
  deriving DecidableEq, Repr

namespace Settings

/-- The bucket of a visibility. -/
def ByVisibility.get (b : ByVisibility) : Visibility → Override
  | .pub => b.pub
  | .prot => b.prot
  | .priv => b.priv

/-- The bucket of a scope and a visibility. -/
def Methods.bucket (m : Methods) : Scope → Visibility → Override
  | .onInstance, v => m.onInstance.get v
  | .onClass, v => m.onClass.get v

/-- Are return tags written for the members of a bucket? -/
def returnTagFor (s : Settings) (scope : Scope) (v : Visibility) : Bool :=
  (s.methods.bucket scope v).returnTag.getD s.emit.returnTag

/-- The description of the members of a bucket. -/
def messageFor (s : Settings) (scope : Scope) (v : Visibility) : Text :=
  (s.methods.bucket scope v).message.getD s.doc.message

end Settings

end RubyDoc
