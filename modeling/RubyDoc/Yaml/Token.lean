import RubyDoc.Text.Sym

/-!
# YAML tokens

What a document is made of before its nesting is known.  The lexer turns indentation into the start
and end tokens of block collections, and marks keys that are written without a sign of their own.
-/

namespace RubyDoc.Yaml

/-- A line for the reader of a document, before its start. -/
inductive Directive where
  /-- The version of the format. -/
  | version (major : Text)
  /-- What a handle in tags stands for. -/
  | handle (handle stem : Text)
  | other
  deriving DecidableEq, Repr

/-- The tokens of a document. -/
inductive Token where
  | documentStart | documentEnd
  | directive (d : Directive)
  | blockSequence | blockMapping | blockEnd
  | flowSequence | flowSequenceEnd
  | flowMapping | flowMappingEnd
  /-- The hyphen before an entry of a block sequence. -/
  | blockEntry
  /-- The comma between entries. -/
  | flowEntry
  | key | value
  | alias (name : Text)
  | anchor (name : Text)
  /-- A tag with its handle, if it has one. -/
  | tag (handle : Option Text) (suffix : Text)
  | scalar (t : Text) (plain : Bool)
  deriving DecidableEq, Repr

end RubyDoc.Yaml
