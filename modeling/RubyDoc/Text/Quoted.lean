import RubyDoc.Text.CharClass
import RubyDoc.Text.GraphicTable

/-!
# Quoted texts

A quoted text shows every symbol: it stands between quotes, and what has no glyph of its own is
spelled out.  Single quotes are used unless the text holds some and no double ones.
-/

namespace RubyDoc.Text

/-- The digits of `n` to the base sixteen, at least `width` of them. -/
def hexDigits (width n : Nat) : Text :=
  let digits := Nat.toDigits 16 n
  (List.replicate (width - digits.length) '0' ++ digits).map Sym.char

/-- Does a character have a glyph of its own? -/
def isVisible (c : Char) : Bool :=
  let n := c.toNat
  if n < 0x80 then 0x20 ≤ n && n < 0x7F else !inRanges wideInvisibleRanges n

/-- A code point spelled out in two, four or eight digits. -/
def spelled (n : Nat) : Text :=
  if n < 0x100 then "\\x" ++ hexDigits 2 n
  else if n < 0x10000 then "\\u" ++ hexDigits 4 n
  else "\\U" ++ hexDigits 8 n

/-- One symbol between two `quote`s. -/
def quotedSym (quote : Char) (s : Sym) : Text :=
  match s with
  | .byte _ => spelled s.code
  | .char c =>
      if c = quote ∨ c = '\\' then [.char '\\', s]
      else if c = '\n' then "\\n"
      else if c = '\r' then "\\r"
      else if c = '\t' then "\\t"
      else if isVisible c then [s]
      else spelled c.toNat

/-- The text between quotes. -/
def quoted (t : Text) : Text :=
  let quote := if t.any (· = .char '\'') && !t.any (· = .char '"') then '"' else '\''
  .char quote :: t.flatMap (quotedSym quote) ++ [.char quote]

end RubyDoc.Text
