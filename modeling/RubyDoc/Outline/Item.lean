import RubyDoc.Outline.Definition
import RubyDoc.Analysis.Constant

/-!
# Outlines

An outline is what is left of a syntax tree when only definitions, containers and the calls that set
scope and visibility are of interest.  A statement of any other kind contributes the containers that
are nested in it.  Outlining looks at the tree alone; what the calls mean is `RubyDoc.Outline.Walk`.
-/

namespace RubyDoc.Outline

open RubyDoc.Syntax RubyDoc.Analysis

/-- An argument of a call that sets scope or visibility. -/
inductive Argument where
  /-- A method defined in place, with its node and name. -/
  | method (node : Node) (name : Text)
  /-- A method of one object defined in place. -/
  | singletonMethod (node : Node) (name : Text)
  /-- Attributes declared in place. -/
  | attributes (node : Node) (access : Access) (names : List Text)
  /-- A symbol or string that names a member. -/
  | named (name : Text)
  deriving Repr

/-- One item of an outline. -/
inductive Item where
  | method (node : Node) (name : Text)
  | singletonMethod (node : Node) (name : Text)
  | attributes (node : Node) (access : Access) (names : List Text)
  /-- A visibility keyword alone, for the definitions that follow. -/
  | visibilityFromHere (v : Visibility)
  | visibilityOf (v : Visibility) (arguments : List Argument)
  /-- The word that turns the methods that follow into functions of the module. -/
  | moduleFunctionsFromHere
  | moduleFunctionsOf (arguments : List Argument)
  | classVisibilityOf (v : Visibility) (arguments : List Argument)
  /-- A body for the members of one object; `onSelf` if that object is the container. -/
  | singletonClass (onSelf : Bool) (items : List Item)
  /-- A class or module, with the path segment that names it. -/
  | container (segment : Text) (items : List Item)
  deriving Repr

/-- What a call without receiver does to scope and visibility, by its name. -/
inductive Directive where
  | visibility (v : Visibility)
  | moduleFunction
  | classVisibility (v : Visibility)
  | attribute (access : Access)
  deriving DecidableEq, Repr

/-- The calls that an outline keeps. -/
def directives : List (Text × Directive) :=
  [("public", .visibility .pub), ("protected", .visibility .prot), ("private", .visibility .priv),
    ("module_function", .moduleFunction),
    ("public_class_method", .classVisibility .pub),
    ("private_class_method", .classVisibility .priv),
    ("attr_reader", .attribute .read), ("attr", .attribute .read),
    ("attr_writer", .attribute .write), ("attr_accessor", .attribute .readWrite)]

/-- The directive that a node calls.  Declaring attributes takes a call with arguments. -/
def directive? (s : Source) (n : Node) : Option Directive :=
  if n.isReceiverless then
    match (s.callName? n).bind fun name => directives.lookup name with
    | some (.attribute access) => if n.kind = .call then some (.attribute access) else none
    | found => found
  else none

/-- The name of a method definition, unless it is empty. -/
def methodName? (s : Source) (n : Node) : Option Text :=
  (s.definitionName? n).bind Source.nonempty?

/-- The names that a declaration of attributes lists. -/
def attributeNames (s : Source) (n : Node) : List Text :=
  n.arguments.filterMap s.symbolName?

/-- What an argument of a directive says, if anything. -/
def argument? (s : Source) (n : Node) : Option Argument :=
  match n.kind with
  | .method => (methodName? s n).map (.method n)
  | .singletonMethod => (methodName? s n).map (.singletonMethod n)
  | _ =>
      match directive? s n, n.kind with
      | some (.attribute access), .call => some (.attributes n access (attributeNames s n))
      | _, _ => (s.symbolName? n).map .named

/-- The item of a call that is a directive. -/
def directiveItem (s : Source) (n : Node) (d : Directive) : Item :=
  let arguments := n.arguments.filterMap (argument? s)
  match d with
  | .visibility v =>
      if n.arguments.isEmpty then .visibilityFromHere v else .visibilityOf v arguments
  | .moduleFunction =>
      if n.arguments.isEmpty then .moduleFunctionsFromHere else .moduleFunctionsOf arguments
  | .classVisibility v => .classVisibilityOf v arguments
  | .attribute access => .attributes n access (attributeNames s n)

/-- The segment that a class or module adds to the path of its container. -/
def containerSegment (s : Source) (n : Node) : Text :=
  match n.child? .name with
  | none => topContainer
  | some name => (constantPath? s name).getD (s.textOf name)

/-- Does a singleton class open on the container itself? -/
def opensOnSelf (n : Node) : Bool :=
  (n.child? .value).any fun v => v.kind = .selfExpr

/-- Is the node a class or a module? -/
def isContainer (n : Node) : Bool :=
  n.kind = .classDef || n.kind = .moduleDef

mutual

/-- The items of one statement. -/
def items (s : Source) : Node → List Item
  | n@⟨kind, _, _, _, _, _, _, _, children⟩ =>
      match kind with
      | .method => ((methodName? s n).map (Item.method n)).toList
      | .singletonMethod => ((methodName? s n).map (Item.singletonMethod n)).toList
      | .singletonClass => [.singletonClass (opensOnSelf n) (bodyItems s children)]
      | .classDef | .moduleDef => [.container (containerSegment s n) (bodyItems s children)]
      | _ =>
          match directive? s n with
          | some d => [directiveItem s n d]
          | none => nestedItems s children

/-- The containers nested anywhere in a list of nodes, without those inside other containers. -/
def nestedItems (s : Source) : List Node → List Item
  | [] => []
  | c :: cs =>
      (if c.isCode then if isContainer c then items s c else itemsBelow s c else []) ++
        nestedItems s cs

/-- The containers nested anywhere below a node. -/
def itemsBelow (s : Source) : Node → List Item
  | ⟨_, _, _, _, _, _, _, _, children⟩ => nestedItems s children

/-- The items of a list of statements, passing over comments and punctuation. -/
def statementItems (s : Source) : List Node → List Item
  | [] => []
  | c :: cs => (if c.isCode then items s c else []) ++ statementItems s cs

/-- The items of the statements directly below a node. -/
def blockItems (s : Source) : Node → List Item
  | ⟨_, _, _, _, _, _, _, _, children⟩ => statementItems s children

/-- The items of a definition's body, given the children of the definition. -/
def bodyItems (s : Source) (children : List Node) : List Item :=
  if children.any fun c => c.field = some .body then bodyFieldItems s children
  else if children.any fun c => c.isNamed && c.kind = .body then bodyNodeItems s children
  else unclaimedItems s Node.headingFields children

/-- The items of the first node that fills the body field. -/
def bodyFieldItems (s : Source) : List Node → List Item
  | [] => []
  | c :: cs =>
      if c.field = some .body then if c.kind = .body then blockItems s c else items s c
      else bodyFieldItems s cs

/-- The items of the first named body node. -/
def bodyNodeItems (s : Source) : List Node → List Item
  | [] => []
  | c :: cs => if c.isNamed && c.kind = .body then blockItems s c else bodyNodeItems s cs

/-- The items of the statements that no field in `fields` claims. -/
def unclaimedItems (s : Source) : (fields : List Field) → List Node → List Item
  | _, [] => []
  | fields, c :: cs =>
      match c.field with
      | none => (if c.isCode then items s c else []) ++ unclaimedItems s fields cs
      | some f =>
          if f ∈ fields then unclaimedItems s (fields.filter (· ≠ f)) cs
          else (if c.isCode then items s c else []) ++ unclaimedItems s fields cs

end

/-- The outline of a file, given the root of its tree. -/
def ofRoot (s : Source) (root : Node) : List Item :=
  if root.kind = .program then statementItems s root.children else bodyItems s root.children

end RubyDoc.Outline
