import RubyDoc.Syntax.Node
import RubyDoc.Text.Utf8
import RubyDoc.Text.Basic

/-!
# Source texts

Syntax trees count bytes, edits count symbols.  A source carries its text together with the bytes
that encode it, and answers what a node covers in either measure.
-/

namespace RubyDoc.Syntax

/-- A Ruby text with its encoding. -/
structure Source where
  text : Text
  bytes : List UInt8 := Utf8.encode text
  bytes_eq : bytes = Utf8.encode text := by rfl

namespace Source

/-- The source of a text. -/
def ofText (text : Text) : Source :=
  { text }

/-- The symbol offset of a byte offset.  Where every symbol is one byte the two agree. -/
def symbolOffset (s : Source) (byteOffset : Nat) : Nat :=
  if s.bytes.length = s.text.length then byteOffset
  else (Utf8.decode (s.bytes.take byteOffset)).length

/-- The text that the bytes from `a` to `b` spell. -/
def slice (s : Source) (a b : Nat) : Text :=
  Utf8.decode ((s.bytes.drop a).take (b - a))

/-- The text of a node. -/
def textOf (s : Source) (n : Node) : Text :=
  s.slice n.startByte n.endByte

/-- The symbol offset of a node's first symbol. -/
def startOf (s : Source) (n : Node) : Nat :=
  s.symbolOffset n.startByte

/-! ## Names in calls and definitions -/

/-- The name of a called method: of a call with its parts, or of a bare word. -/
def callName? (s : Source) (n : Node) : Option Text :=
  if n.kind = .identifier then some (s.textOf n)
  else if n.kind = .call then (n.child? .method).map s.textOf
  else none

/-- The name of a method definition. -/
def definitionName? (s : Source) (n : Node) : Option Text :=
  (n.child? .name).map s.textOf

/-- A text that is not empty. -/
def nonempty? (t : Text) : Option Text :=
  if t.isEmpty then none else some t

theorem of_nonempty?_eq_some {t u : Text} (h : nonempty? t = some u) : t = u ∧ u ≠ [] := by
  rw [nonempty?] at h
  split at h
  · cases h
  · rename_i hne
    obtain rfl := Option.some.inj h
    exact ⟨rfl, by simpa using hne⟩

/-- The name that a symbol or string literal spells.  A literal with an interpolation, an escape or
nothing in it spells none. -/
def symbolName? (s : Source) (n : Node) : Option Text :=
  match n.kind with
  | .literal .simpleSymbol => nonempty? ((s.textOf n).drop 1)
  | .literal .delimitedSymbol | .literal .string =>
      if n.code.all fun part => part.kind = .stringContent then
        nonempty? (n.code.flatMap s.textOf)
      else none
  | _ => none

end Source

namespace Node

/-- The arguments of a call; a bare word has none. -/
def arguments (n : Node) : List Node :=
  if n.kind = .call then n.codeOf .arguments else []

/-- Is the node a call without a receiver, with or without arguments? -/
def isReceiverless (n : Node) : Bool :=
  n.kind = .identifier || (n.kind = .call && (n.child? .receiver).isNone)

end Node

end RubyDoc.Syntax
