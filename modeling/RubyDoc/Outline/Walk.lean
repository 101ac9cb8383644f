import RubyDoc.Outline.Item

/-!
# Walking an outline

The walk goes through the items of an outline in order and records every definition with the scope
and visibility that Ruby itself would give it.  A visibility keyword changes the default for what
follows, or the visibility of the names it lists; functions of a module become members of the module
itself, also after they were recorded.  Each container starts afresh, and what a singleton class
declares is forgotten at its end.
-/

namespace RubyDoc.Outline

/-- What has been declared so far in one body.  Lists of names have the latest entry first. -/
structure Context where
  /-- Inside a singleton class of the container. -/
  onSelf : Bool := false
  instanceDefault : Visibility := .pub
  classDefault : Visibility := .pub
  instanceNames : List (Text × Visibility) := []
  classNames : List (Text × Visibility) := []
  moduleFunctionDefault : Bool := false
  moduleFunctionNames : List Text := []
  deriving Repr

/-- The state of the walk: what is declared here, and the definitions found, the latest first. -/
structure Walk where
  context : Context := {}
  found : List Definition := []

namespace Context

/-- Declares the visibility of a name. -/
def declare (c : Context) (name : Text) (v : Visibility) : Context :=
  if c.onSelf then { c with classNames := (name, v) :: c.classNames }
  else { c with instanceNames := (name, v) :: c.instanceNames }

/-- Declares the visibility of everything that follows.  Outside a singleton class this also ends
the making of module functions. -/
def declareDefault (c : Context) (v : Visibility) : Context :=
  if c.onSelf then { c with classDefault := v }
  else { c with instanceDefault := v, moduleFunctionDefault := false }

/-- The visibility of a member of the container itself. -/
def classVisibility (c : Context) (name : Text) : Visibility :=
  (c.classNames.lookup name).getD c.classDefault

/-- The visibility of a member of the instances. -/
def instanceVisibility (c : Context) (name : Text) : Visibility :=
  (c.instanceNames.lookup name).getD c.instanceDefault

/-- The visibility of the copy that a module function leaves: hidden unless declared public. -/
def copyVisibility (c : Context) (name : Text) : Visibility :=
  if c.instanceNames.lookup name = some .pub then .pub else .priv

/-- The visibility of an attribute.  A name that is not declared goes by its writer's. -/
def attributeVisibility (c : Context) (access : Access) (name : Text) : Visibility :=
  let names := if c.onSelf then c.classNames else c.instanceNames
  let default := if c.onSelf then c.classDefault else c.instanceDefault
  match names.lookup name with
  | some v => v
  | none => if access.writes then (names.lookup (name ++ "=")).getD default else default

/-- The scope of what is declared here. -/
def scope (c : Context) : Scope :=
  if c.onSelf then .onClass else .onInstance

end Context

/-- Changes the first element that satisfies `p`. -/
def modifyFirst {α : Type} (p : α → Bool) (f : α → α) : List α → List α
  | [] => []
  | a :: as => if p a then f a :: as else a :: modifyFirst p f as

namespace Walk

/-- Records a definition. -/
def record (w : Walk) (d : Definition) : Walk :=
  { w with found := d :: w.found }

/-- Changes what is declared here. -/
def declaring (w : Walk) (f : Context → Context) : Walk :=
  { w with context := f w.context }

/-- Records a method definition. -/
def addMethod (container : Text) (node : Syntax.Node) (name : Text) (w : Walk) : Walk :=
  let c := w.context
  if c.onSelf then
    w.record ⟨node, name, container, .onClass, c.classVisibility name, .method none⟩
  else if c.moduleFunctionDefault || name ∈ c.moduleFunctionNames then
    w.record ⟨node, name, container, .onClass, .pub, .method (some (c.copyVisibility name))⟩
  else
    w.record ⟨node, name, container, .onInstance, c.instanceVisibility name, .method none⟩

/-- Records the definition of a method on one object. -/
def addSingletonMethod (container : Text) (node : Syntax.Node) (name : Text) (w : Walk) : Walk :=
  w.record ⟨node, name, container, .onClass, w.context.classVisibility name, .method none⟩

/-- Records attributes, one for each name. -/
def addAttributes (container : Text) (node : Syntax.Node) (access : Access) (names : List Text)
    (w : Walk) : Walk :=
  names.foldl (fun w name =>
    w.record ⟨node, name, container, w.context.scope, w.context.attributeVisibility access name,
      .attribute access⟩) w

/-- Is `d` a method `name` of the instances of `container`, defined by a plain `def`? -/
def isPromotable (container name : Text) (d : Definition) : Bool :=
  d.isMethod && d.container = container && d.scope = .onInstance && d.name = name &&
    d.node.kind = .method

/-- A method turned into a function of its module; private methods become public. -/
def promoted (copy : Visibility) (d : Definition) : Definition :=
  { d with
    scope := .onClass
    visibility := if d.visibility = .priv then .pub else d.visibility
    role := .method (some copy) }

/-- Turns the latest method of that name into a function of the module. -/
def promote (container name : Text) (w : Walk) : Walk :=
  { w with
    found := modifyFirst (isPromotable container name)
      (promoted (w.context.copyVisibility name)) w.found }

/-- Is `d` a method `name` of `container` itself? -/
def isClassMethod (container name : Text) (d : Definition) : Bool :=
  d.isMethod && d.container = container && d.scope = .onClass && d.name = name

/-- Sets the visibility of the latest method of that name of the container itself. -/
def setClassVisibility (container name : Text) (v : Visibility) (w : Walk) : Walk :=
  { w with
    found := modifyFirst (isClassMethod container name) (fun d => { d with visibility := v })
      w.found }

/-- One argument of a visibility keyword. -/
def visibilityArgument (container : Text) (v : Visibility) (w : Walk) : Argument → Walk
  | .method node name =>
      (w.declaring fun c => c.declare name v).addMethod container node name
  | .singletonMethod node name =>
      (w.declaring fun c => c.declare name v).addSingletonMethod container node name
  | .attributes node access names =>
      (w.declaring fun c => names.foldl (fun c name => c.declare name v) c).addAttributes
        container node access names
  | .named name => w.declaring fun c => c.declare name v

/-- One argument of the making of module functions. -/
def moduleFunctionArgument (container : Text) (w : Walk) : Argument → Walk
  | .method node name =>
      (w.declaring fun c =>
        { c with moduleFunctionNames := name :: c.moduleFunctionNames }).addMethod
          container node name
  | .named name =>
      (w.declaring fun c =>
        { c with moduleFunctionNames := name :: c.moduleFunctionNames }).promote container name
  | .singletonMethod _ _ | .attributes _ _ _ => w

/-- One argument of a keyword for the visibility of class methods. -/
def classVisibilityArgument (container : Text) (v : Visibility) (w : Walk) : Argument → Walk
  | .singletonMethod node name =>
      (w.addSingletonMethod container node name).setClassVisibility container name v
  | .named name => w.setClassVisibility container name v
  | .method _ _ | .attributes _ _ _ => w

end Walk

/-- The container that a path stands for; without a path it is the top of the file. -/
def containerOf (path : Option Text) : Text :=
  path.getD topContainer

mutual

/-- One item of a body in the container `path`. -/
def walkItem (path : Option Text) : Item → Walk → Walk
  | .method node name, w => w.addMethod (containerOf path) node name
  | .singletonMethod node name, w => w.addSingletonMethod (containerOf path) node name
  | .attributes node access names, w => w.addAttributes (containerOf path) node access names
  | .visibilityFromHere v, w => w.declaring fun c => c.declareDefault v
  | .visibilityOf v arguments, w =>
      arguments.foldl (Walk.visibilityArgument (containerOf path) v) w
  | .moduleFunctionsFromHere, w => w.declaring fun c => { c with moduleFunctionDefault := true }
  | .moduleFunctionsOf arguments, w =>
      arguments.foldl (Walk.moduleFunctionArgument (containerOf path)) w
  | .classVisibilityOf v arguments, w =>
      arguments.foldl (Walk.classVisibilityArgument (containerOf path) v) w
  | .singletonClass onSelf inner, w =>
      let context := { w.context with onSelf := onSelf, classDefault := .pub }
      { w with found := (walkItems path inner { w with context }).found }
  | .container segment inner, w =>
      let inside := Analysis.joinContainer (path.getD []) segment
      { w with found := (walkItems (some inside) inner { found := w.found }).found }

/-- The items of a body, in order. -/
def walkItems (path : Option Text) : List Item → Walk → Walk
  | [], w => w
  | item :: rest, w => walkItems path rest (walkItem path item w)

end

/-- The definitions of an outline, in the order of the text. -/
def definitionsOf (outline : List Item) : List Definition :=
  (walkItems none outline {}).found.reverse

/-- The definitions of a file, given the root of its tree. -/
def definitions (s : Syntax.Source) (root : Syntax.Node) : List Definition :=
  definitionsOf (ofRoot s root)

end RubyDoc.Outline
