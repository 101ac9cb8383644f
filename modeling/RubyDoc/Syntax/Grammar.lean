import RubyDoc.Syntax.Node
import RubyDoc.Failure

/-!
# Grammars

A grammar finds the syntax tree of a text.  The library does not contain one: it is handed to the
functions that need trees.  A tree with an error anywhere is refused as a whole.
-/

namespace RubyDoc.Syntax

/-- Finds the root of a text's syntax tree; none if there is no tree at all. -/
abbrev Grammar := Text → Option Node

namespace Grammar

/-- The tree of a text without faults. -/
def parse (g : Grammar) (file text : Text) : Except Failure Node :=
  match g text with
  | none => .error (.unparsable file none)
  | some root => if root.hasError then .error (.unparsable file root.firstFaultLine?) else .ok root

end Grammar

end RubyDoc.Syntax
