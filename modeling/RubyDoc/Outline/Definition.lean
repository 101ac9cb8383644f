import RubyDoc.Syntax.Source

/-!
# Definitions

What a file defines and documentation can stand above: methods and attributes, each with the
container it belongs to, its scope and its visibility.
-/

namespace RubyDoc.Outline

open RubyDoc.Syntax

/-- Whether a member belongs to the instances of its container or to the container itself. -/
inductive Scope where
  | onInstance | onClass
  deriving DecidableEq, Repr

/-- Who may call a member. -/
inductive Visibility where
  | pub | prot | priv
  deriving DecidableEq, Repr

/-- What an attribute lets one do. -/
inductive Access where
  | read | write | readWrite
  deriving DecidableEq, Repr

namespace Scope

/-- Both scopes. -/
def all : List Scope := [onInstance, onClass]

/-- The name of a scope. -/
def name : Scope → Text
  | onInstance => "instance"
  | onClass => "class"

/-- The scope of a name. -/
def ofName? (name : Text) : Option Scope :=
  all.find? fun s => s.name = name

/-- What stands between container and member in a member's id. -/
def separator : Scope → Text
  | onInstance => "#"
  | onClass => "."

end Scope

namespace Visibility

/-- The visibilities, from the widest to the narrowest. -/
def all : List Visibility := [pub, prot, priv]

/-- The name of a visibility, which is also the keyword that sets it. -/
def name : Visibility → Text
  | pub => "public"
  | prot => "protected"
  | priv => "private"

/-- The visibility of a name. -/
def ofName? (name : Text) : Option Visibility :=
  all.find? fun v => v.name = name

end Visibility

namespace Access

/-- Does the attribute have a reader? -/
def reads : Access → Bool
  | read | readWrite => true
  | write => false

/-- Does the attribute have a writer? -/
def writes : Access → Bool
  | write | readWrite => true
  | read => false

/-- The letters for reading and writing. -/
def letters : Access → Text
  | read => "r"
  | write => "w"
  | readWrite => "rw"

end Access

/-- What kind of member is defined.  A method turned into a function of its module also leaves a
copy in the classes that include the module; `copy` is the visibility of that copy.  It is the type
that keeps methods from having an access and attributes from leaving a copy, and that gives a copy
to the functions of a module and to nothing else. -/
inductive Role where
  | method (copy : Option Visibility)
  | attribute (access : Access)
  deriving DecidableEq, Repr

/-- The id of a member: container, separator, name. -/
def memberId (container : Text) (scope : Scope) (name : Text) : Text :=
  container ++ scope.separator ++ name

/-- One definition.  Its node is the method definition, or the call that declares the attribute. -/
structure Definition where
  node : Node
  name : Text
  container : Text
  scope : Scope
  visibility : Visibility
  role : Role
  deriving Repr

namespace Definition

/-- The id of a definition. -/
def id (d : Definition) : Text :=
  memberId d.container d.scope d.name

/-- Is the definition a method? -/
def isMethod (d : Definition) : Bool :=
  match d.role with
  | .method _ => true
  | .attribute _ => false

/-- The visibility of the copy that a function of a module leaves; none for other members. -/
def copy? (d : Definition) : Option Visibility :=
  match d.role with
  | .method copy => copy
  | .attribute _ => none

/-- Is the definition a method turned into a function of its module? -/
def isModuleFunction (d : Definition) : Bool :=
  d.copy?.isSome

/-- The access of an attribute; none for methods. -/
def access? (d : Definition) : Option Access :=
  match d.role with
  | .method _ => none
  | .attribute access => some access

end Definition

/-- The container of what stands at the top of a file. -/
def topContainer : Text := "Object"

end RubyDoc.Outline
