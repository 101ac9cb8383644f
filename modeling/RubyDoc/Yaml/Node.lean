import RubyDoc.Yaml.Token
import RubyDoc.Text.Basic

/-!
# YAML nodes

The tree of a document, every node with its full tag.  A plain scalar without a tag is tagged by the
form of its text; aliases have been replaced by what they stand for.
-/

namespace RubyDoc.Yaml

/-- What a node's tag says. -/
inductive Tagging where
  /-- No tag: the form of a plain scalar decides, every other scalar is a text. -/
  | byForm (plain : Bool)
  /-- The full tag. -/
  | full (tag : Text)
  deriving DecidableEq, Repr

/-- A node. -/
inductive Node where
  | scalar (tagging : Tagging) (t : Text)
  | sequence (tagging : Tagging) (items : List Node)
  | mapping (tagging : Tagging) (entries : List (Node × Node))
  deriving Repr

/-- The node where nothing is written. -/
def Node.empty : Node :=
  .scalar (.byForm true) []

end RubyDoc.Yaml
