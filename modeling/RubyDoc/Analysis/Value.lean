import RubyDoc.Analysis.Constant

/-!
# The type of a value

The coarse type of an expression, as far as its spelling shows it: literals, constants, and the
construction of an object.  Everything else has the fallback type, so the function is total and
never guesses.
-/

namespace RubyDoc.Analysis

open RubyDoc.Syntax

/-- The type of the `nil` literal, which unification treats as the absence of a value. -/
def nilType : Text := "nil"

/-- The type of a literal. -/
def literalType : Literal → Text
  | .integer => "Integer"
  | .float => "Float"
  | .string | .chainedString | .heredoc => "String"
  | .simpleSymbol | .delimitedSymbol | .keySymbol => "Symbol"
  | .true | .false => "Boolean"
  | .nil => nilType
  | .array | .stringArray | .symbolArray => "Array"
  | .hash => "Hash"
  | .regex => "Regexp"

/-- The type of a number with a sign in front of it. -/
def signedType? (s : Source) (n : Node) : Option Text := do
  let operand ← n.child? .operand
  let sign ← n.child? .operator
  match operand.kind with
  | .literal .integer | .literal .float =>
      if s.textOf sign = Text.ofString "-" ∨ s.textOf sign = Text.ofString "+" then
        match operand.kind with
        | .literal l => some (literalType l)
        | _ => none
      else none
  | _ => none

/-- The class that a call of `new` makes an object of. -/
def constructedType? (s : Source) (n : Node) : Option Text := do
  let receiver ← n.child? .receiver
  let method ← n.child? .method
  if s.textOf method = Text.ofString "new" then lastSegment? s receiver else none

mutual

/-- The type of an expression, or the fallback type. -/
def valueType (s : Source) (fallback : Text) : Node → Text
  | n@⟨kind, _, _, _, _, _, _, _, children⟩ =>
      match kind with
      | .literal l => literalType l
      | .constant | .scopeResolution => ((lastSegment? s n).bind Source.nonempty?).getD fallback
      | .unary => (signedType? s n).getD fallback
      | .call => ((constructedType? s n).bind Source.nonempty?).getD fallback
      | .parentheses => soleType s fallback children
      | _ => fallback

/-- The type of the only statement in a list, or the fallback type if there is not exactly one. -/
def soleType (s : Source) (fallback : Text) : List Node → Text
  | [] => fallback
  | c :: cs =>
      if c.isCode then
        if cs.any Node.isCode then fallback else valueType s fallback c
      else soleType s fallback cs

end

end RubyDoc.Analysis
