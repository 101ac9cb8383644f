import RubyDoc.Analysis.Value
import RubyDoc.Analysis.Raised

/-!
# The result of a method

The type of the value that a method returns is the type of its last expression, followed through
sequences, conditionals and `return`.  Two types that meet at a join are unified: equal types stay,
a type that meets `nil` becomes optional, and any other pair gives the fallback type, so no union of
two classes is ever invented.  Each rescue clause of the body adds a result of its own.
-/

namespace RubyDoc.Analysis

open RubyDoc.Syntax

/-- How a type that is not certain is written. -/
structure ResultStyle where
  fallback : Text := "Object"
  /-- An optional type has a question mark instead of `nil` beside it. -/
  nilAsOptional : Bool := true

/-- The results of a method: the usual one, and one for each list of handled exceptions. -/
structure ReturnSpec where
  normal : Text
  branches : List (List Text × Text) := []
  deriving DecidableEq, Repr

/-- A type that is missing or empty is the fallback type. -/
def orFallback (fallback : Text) : Option Text → Text
  | some (c :: t) => c :: t
  | _ => fallback

/-- The type of a value that may be `nil`. -/
def optionalType (style : ResultStyle) (t : Text) : Text :=
  if style.nilAsOptional then t ++ "?" else t ++ ", " ++ nilType

/-- The type of a value that comes from either of two branches. -/
def unify (style : ResultStyle) (a b : Option Text) : Text :=
  let a := orFallback style.fallback a
  let b := orFallback style.fallback b
  if a = b then a
  else if a = nilType then optionalType style b
  else if b = nilType then optionalType style a
  else style.fallback

/-- The types of many branches unified from left to right. -/
def unifyAll (style : ResultStyle) : List Text → Text
  | [] => style.fallback
  | t :: ts => ts.foldl (fun acc t => unify style (some acc) (some t)) t

/-- A statement proper, not a clause that handles how the others end. -/
def isStatement (n : Node) : Bool :=
  n.kind ≠ .rescue && n.kind ≠ .elseBody && n.kind ≠ .ensure

/-- The type of what `return` hands back. -/
def returnedType (s : Source) (style : ResultStyle) (n : Node) : Text :=
  let values := match n.code with
    | [] => []
    | v :: vs => if v.kind = .argumentList then v.code else v :: vs
  match values with
  | [] => style.fallback
  | [v] => valueType s style.fallback v
  | _ => "Array"

mutual

/-- The type of the value that a node evaluates to; none for an empty branch. -/
def tailType? (s : Source) (style : ResultStyle) : Node → Option Text
  | n@⟨kind, _, _, _, _, _, _, _, children⟩ =>
      match kind with
      | .body | .thenBody | .elseBody | .parentheses => lastType? s style children
      | .beginBlock =>
          if children.any fun c => c.isCode && c.kind = .rescue then some style.fallback
          else lastType? s style children
      | .ifExpr | .unlessExpr | .elsifExpr | .ternary =>
          some (unify style (fieldType? s style .consequence children)
            (fieldType? s style .alternative children))
      | .ifModifier | .unlessModifier =>
          some (unify style (fieldType? s style .body children) none)
      | .caseExpr | .caseMatch => some (unifyAll style (armTypes s style children))
      | .returnExpr => some (returnedType s style n)
      | _ => some (valueType s style.fallback n)

/-- The type of the last statement of a sequence. -/
def lastType? (s : Source) (style : ResultStyle) : List Node → Option Text
  | [] => none
  | c :: cs =>
      if cs.any fun d => d.isCode && isStatement d then lastType? s style cs
      else if c.isCode && isStatement c then tailType? s style c
      else none

/-- The type of the first node that fills the field `f`. -/
def fieldType? (s : Source) (style : ResultStyle) (f : Field) : List Node → Option Text
  | [] => none
  | c :: cs => if c.field = some f then tailType? s style c else fieldType? s style f cs

/-- The type of the first `then` branch among the nodes. -/
def thenType? (s : Source) (style : ResultStyle) : List Node → Option Text
  | [] => none
  | c :: cs =>
      if c.isNamed && c.kind = .thenBody then tailType? s style c else thenType? s style cs

/-- The type of a clause: of its body, or else of its `then` branch. -/
def clauseType? (s : Source) (style : ResultStyle) : Node → Option Text
  | ⟨_, _, _, _, _, _, _, _, children⟩ =>
      if children.any fun c => c.field = some .body then fieldType? s style .body children
      else thenType? s style children

/-- The types of the arms of a case expression, without empty ones. -/
def armTypes (s : Source) (style : ResultStyle) : List Node → List Text
  | [] => []
  | c :: cs =>
      (match c.isCode, c.kind with
        | true, .elseBody => (tailType? s style c).toList
        | true, .whenArm | true, .inArm => (clauseType? s style c).toList
        | _, _ => []) ++ armTypes s style cs

end

/-- The results of a method. -/
def returnSpec (s : Source) (style : ResultStyle) (method : Node) : ReturnSpec :=
  let statements := method.statements.filter isStatement
  let clauses := method.statements.filter fun c => c.kind = .rescue
  let settle := orFallback style.fallback
  let last := settle (statements.getLast?.bind (tailType? s style))
  match clauses, statements with
  | [], [only] =>
      if only.kind = .rescueModifier then
        ⟨settle (fieldType? s style .body only.children),
          [([defaultError], settle (fieldType? s style .handler only.children))]⟩
      else ⟨last, []⟩
  | [], _ => ⟨last, []⟩
  | _, _ => ⟨last, clauses.map fun c => (handledErrors s c, settle (clauseType? s style c))⟩

end RubyDoc.Analysis
