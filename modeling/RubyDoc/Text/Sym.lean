/-!
# Symbols

A source file is not always valid UTF-8.  A symbol is therefore either a Unicode character or one
byte that belongs to no character, and a text is a list of symbols.  All offsets and lengths of the
library count symbols; nothing here knows about the encoding, which is `RubyDoc.Text.Utf8`.
-/

namespace RubyDoc

/-- One symbol of a text: a character, or a byte that is part of no character's encoding. -/
inductive Sym where
  | char (c : Char)
  | byte (b : UInt8)
  deriving DecidableEq, Repr, Inhabited

/-- A text is the list of its symbols. -/
abbrev Text := List Sym

namespace Sym

instance : Coe Char Sym := ⟨Sym.char⟩

/-- The rank of a symbol: stray bytes lie in the gap that Unicode leaves for surrogates. -/
def code : Sym → Nat
  | char c => c.toNat
  | byte b => 0xDC00 + b.toNat

/-- Does the symbol hold a character that satisfies `p`?  A stray byte never does. -/
def satisfies (p : Char → Bool) : Sym → Bool
  | char c => p c
  | byte _ => false

/-- The line feed, which ends every line. -/
def lineFeed : Sym := .char '\n'

/-- The carriage return, which may stand before a line feed. -/
def carriageReturn : Sym := .char '\r'

end Sym

namespace Text

/-- The text of a string without stray bytes. -/
def ofString (s : String) : Text :=
  s.toList.map Sym.char

instance : Coe String Text := ⟨ofString⟩

/-- The string of a text, unless a stray byte prevents it. -/
def toString? (t : Text) : Option String :=
  (t.mapM fun (s : Sym) =>
    match s with
    | .char c => some c
    | .byte _ => none).map String.ofList

/-- The order of texts by the codes of their symbols, a proper beginning first. -/
def le : Text → Text → Bool
  | [], _ => true
  | _ :: _, [] => false
  | a :: s, b :: t => if a.code = b.code then le s t else a.code < b.code

end Text

end RubyDoc
