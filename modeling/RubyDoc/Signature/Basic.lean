import RubyDoc.Outline.Definition

/-!
# Signatures

The types of a method as a signature file declares them, already in the notation of documentation,
and the key under which they are looked up.
-/

namespace RubyDoc

/-- The types of one method. -/
structure Signature where
  returnType : Text
  /-- The types of named parameters, in the order of their declaration. -/
  paramTypes : List (Text × Text) := []
  /-- The type of one element of the rest parameter. -/
  restElement : Option Text := none
  /-- The type of one value of the keyword rest parameter. -/
  restValue : Option Text := none
  deriving DecidableEq, Repr

namespace Signature

/-- What a signature is looked up by. -/
structure Key where
  container : Text
  scope : Outline.Scope
  name : Text
  deriving DecidableEq, Repr

end Signature

end RubyDoc
