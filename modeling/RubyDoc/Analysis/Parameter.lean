import RubyDoc.Analysis.Value

/-!
# Formal parameters

The parameters of a method in their order, each with a type guessed from its shape, its name and
its default value.  Parameters that no documentation can name, such as `...`, are left out.
-/

namespace RubyDoc.Analysis

open RubyDoc.Syntax

/-- How arguments reach a parameter. -/
inductive ParameterKind where
  | required | optional | keyword | optionalKeyword | rest | keywordRest | block
  deriving DecidableEq, Repr

/-- A formal parameter with its type. -/
structure Parameter where
  name : Text
  kind : ParameterKind
  type : Text
  deriving DecidableEq, Repr

/-- What is assumed of types that the text does not show. -/
structure ParameterStyle where
  fallback : Text := "Object"
  /-- A keyword parameter with the name `options` takes a hash. -/
  optionsAsHash : Bool := true

namespace ParameterKind

/-- The kinds by name. -/
def names : List (Text × ParameterKind) :=
  [("required", required), ("optional", optional), ("keyword", keyword),
    ("optional_keyword", optionalKeyword), ("rest", rest), ("keyword_rest", keywordRest),
    ("block", block)]

/-- The name of a kind. -/
def name (k : ParameterKind) : Text :=
  ((names.find? fun entry => entry.2 = k).map Prod.fst).getD []

/-- The kind of a name. -/
def ofName? (name : Text) : Option ParameterKind :=
  names.lookup name

end ParameterKind

/-- The type of a parameter. -/
def parameterType (s : Source) (style : ParameterStyle) (kind : ParameterKind) (name : Text)
    (value : Option Node) : Text :=
  let isOptions := style.optionsAsHash && name = Text.ofString "options"
  let inferred := (value.map (valueType s style.fallback)).getD style.fallback
  let isEmptyHash := value.any fun v => (s.textOf v).trim = Text.ofString "\x7b\x7d"
  match kind with
  | .rest => "Array"
  | .keywordRest => "Hash"
  | .block => "Proc"
  | .keyword => if isOptions then "Hash" else style.fallback
  | .optionalKeyword => if isOptions && isEmptyHash then "Hash" else inferred
  | .required | .optional => inferred

/-- The kind, name and default value of a parameter node, if documentation can name it. -/
def parameterShape? (s : Source) (n : Node) : Option (ParameterKind × Text × Option Node) :=
  let named := ((n.child? .name).map s.textOf).getD []
  let namedOr (anonymous : Text) := ((n.child? .name).map s.textOf).getD anonymous
  let value := n.child? .value
  match n.kind with
  | .identifier => some (.required, s.textOf n, none)
  | .optionalParameter => some (.optional, named, value)
  | .keywordParameter =>
      some (if value.isNone then .keyword else .optionalKeyword, named, value)
  | .splatParameter => some (.rest, namedOr "args", none)
  | .hashSplatParameter => some (.keywordRest, namedOr "kwargs", none)
  | .blockParameter => some (.block, namedOr "block", none)
  | _ => none

/-- The parameter that a node declares. -/
def parameter? (s : Source) (style : ParameterStyle) (n : Node) : Option Parameter := do
  let (kind, name, value) ← parameterShape? s n
  if name.isEmpty then none
  else some ⟨name, kind, parameterType s style kind name value⟩

/-- The parameters of a method, in order. -/
def parameters (s : Source) (style : ParameterStyle) (method : Node) : List Parameter :=
  (method.codeOf .parameters).filterMap (parameter? s style)

end RubyDoc.Analysis
