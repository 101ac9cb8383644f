import RubyDoc.Syntax.Kind

/-!
# Syntax trees

A node has a kind, the field that it fills in its parent, the byte range and first row of its text,
and its children.  Children of the grammar's own punctuation are anonymous; they matter only where
a field or an error singles them out.  A child is identified by its place among its siblings.
-/

namespace RubyDoc.Syntax

/-- One node of a syntax tree. -/
structure Node where
  kind : Kind
  field : Option Field
  /-- Byte offsets of the first byte and just past the last one. -/
  startByte : Nat
  endByte : Nat
  /-- The row of the first byte, counted from zero. -/
  row : Nat
  /-- The node stands for a rule of the grammar, not for punctuation. -/
  isNamed : Bool
  /-- The parser supplied the node although the text lacks it. -/
  isMissing : Bool
  /-- The node or something below it is an error. -/
  hasError : Bool
  children : List Node
  deriving Repr

namespace Node

/-- The line of the node, counted from one. -/
def line (n : Node) : Nat :=
  n.row + 1

/-- Is the node a child that code can mean something by: neither punctuation nor a comment? -/
def isCode (n : Node) : Bool :=
  n.isNamed && n.kind ≠ .comment

/-- The named children. -/
def namedChildren (n : Node) : List Node :=
  n.children.filter isNamed

/-- The named children without comments. -/
def code (n : Node) : List Node :=
  n.children.filter isCode

/-- The first child that fills the field `f`. -/
def child? (n : Node) (f : Field) : Option Node :=
  n.children.find? fun c => c.field = some f

/-- The named children without comments of the child that fills `f`; none if there is no such. -/
def codeOf (n : Node) (f : Field) : List Node :=
  ((n.child? f).map code).getD []

/-- Fields that belong to a definition's heading, not to its body. -/
def headingFields : List Field :=
  [.name, .parameters, .superclass, .object, .value]

/-- The children of `cs` that no field in `fields` claims; each field claims its first child. -/
def unclaimed : (fields : List Field) → List Node → List Node
  | _, [] => []
  | fields, c :: cs =>
      match c.field with
      | none => c :: unclaimed fields cs
      | some f =>
          if f ∈ fields then unclaimed (fields.filter (· ≠ f)) cs else c :: unclaimed fields cs

/-- The body of a definition: the child in the body field, or else the first body child. -/
def body? (n : Node) : Option Node :=
  n.child? .body <|> n.namedChildren.find? fun c => c.kind = .body

/-- The statements of a definition's body, or of the whole file.  A definition without a body node
has its statements among its own children, beside its heading. -/
def statements (n : Node) : List Node :=
  if n.kind = .program then n.code
  else match n.body? with
    | some b => if b.kind = .body then b.code else [b]
    | none => (unclaimed headingFields n.children).filter isCode

mutual

/-- The node and everything below it, each node before its children. -/
def preorder : Node → List Node
  | ⟨kind, field, startByte, endByte, row, isNamed, isMissing, hasError, children⟩ =>
      ⟨kind, field, startByte, endByte, row, isNamed, isMissing, hasError, children⟩ ::
        preorderList children

/-- The nodes of a list of trees, in order. -/
def preorderList : List Node → List Node
  | [] => []
  | c :: cs => preorder c ++ preorderList cs

end

mutual

/-- The node and every named node that named nodes lead to, each before its children. -/
def namedPreorder : Node → List Node
  | ⟨kind, field, startByte, endByte, row, isNamed, isMissing, hasError, children⟩ =>
      ⟨kind, field, startByte, endByte, row, isNamed, isMissing, hasError, children⟩ ::
        namedPreorderList children

/-- The named nodes of a list of trees, in order. -/
def namedPreorderList : List Node → List Node
  | [] => []
  | c :: cs => (if c.isNamed then namedPreorder c else []) ++ namedPreorderList cs

end

/-- Is the node itself a fault of the text? -/
def isFault (n : Node) : Bool :=
  n.kind = .error || n.isMissing

/-! ## The search for a fault -/

theorem preorder_eq (n : Node) : n.preorder = n :: preorderList n.children := by
  cases n
  rw [preorder]

theorem preorderList_append (cs ds : List Node) :
    preorderList (cs ++ ds) = preorderList cs ++ preorderList ds := by
  induction cs with
  | nil => rw [preorderList, List.nil_append, List.nil_append]
  | cons c cs ih => rw [List.cons_append, preorderList, preorderList, ih, List.append_assoc]

/-- Puts the children of a node on a stack of trees one after another, the last child first. -/
def pushChildren (n : Node) (stack : List Node) : List Node :=
  n.children.reverse.foldl (fun below c => c :: below) stack

/-- The first child comes to lie on top. -/
theorem pushChildren_eq (n : Node) (stack : List Node) :
    n.pushChildren stack = n.children ++ stack := by
  rw [pushChildren, List.foldl_reverse, List.foldr_cons_eq_append]
  exact congrArg (· ++ stack) (List.map_id _)

/-- The line of the first fault in the trees on a stack, the top one being searched first.  A tree
is looked into only if it is flagged. -/
def faultLineFrom? : (stack : List Node) → Option Nat
  | [] => none
  | n :: stack =>
      if n.isFault then some n.line
      else if n.hasError then faultLineFrom? (n.pushChildren stack)
      else faultLineFrom? stack
-- Every step takes at least one node off the trees that are left.
termination_by stack => (preorderList stack).length
decreasing_by
  all_goals
    simp only [pushChildren_eq, preorderList, preorderList_append, preorder_eq n,
      List.cons_append, List.length_cons, List.length_append]
    omega

/-- The line of the first fault. -/
def firstFaultLine? (n : Node) : Option Nat :=
  faultLineFrom? [n]

end Node

end RubyDoc.Syntax
