import RubyDoc.Text.Sym
import RubyDoc.Text.WordTable

/-!
# Character classes

Blanks, word symbols and digits, by the Unicode properties.  Stray bytes are in none of them.  The
ASCII members are decided by comparison; only symbols beyond ASCII look into a table.
-/

namespace RubyDoc

/-- Does `n` lie in one of the closed intervals? -/
def inRanges (ranges : List (Nat × Nat)) (n : Nat) : Bool :=
  ranges.any fun r => r.1 ≤ n && n ≤ r.2

namespace Text

/-- White space beyond ASCII. -/
def wideBlankRanges : List (Nat × Nat) :=
  [(0x85, 0x85), (0xA0, 0xA0), (0x1680, 0x1680), (0x2000, 0x200A), (0x2028, 0x2029),
    (0x202F, 0x202F), (0x205F, 0x205F), (0x3000, 0x3000)]

/-- White space: tab to carriage return, the four separators, the space, and those beyond ASCII. -/
def isBlankChar (c : Char) : Bool :=
  let n := c.toNat
  if n < 0x80 then (9 ≤ n && n ≤ 13) || (28 ≤ n && n ≤ 32) else inRanges wideBlankRanges n

/-- An ASCII letter. -/
def isLetterChar (c : Char) : Bool :=
  c.isAlpha

/-- A symbol of a word: a letter, a digit, a number or the underscore. -/
def isWordChar (c : Char) : Bool :=
  if c.toNat < 0x80 then c.isAlphanum || c == '_' else inRanges wideWordRanges c.toNat

/-- A decimal digit of any script. -/
def isDigitChar (c : Char) : Bool :=
  if c.toNat < 0x80 then c.isDigit else inRanges wideDigitRanges c.toNat

end Text

namespace Sym

/-- White space. -/
def isBlank : Sym → Bool := satisfies Text.isBlankChar

/-- A letter, digit, number or underscore. -/
def isWord : Sym → Bool := satisfies Text.isWordChar

/-- A decimal digit. -/
def isDigit : Sym → Bool := satisfies Text.isDigitChar

/-- An ASCII letter. -/
def isLetter : Sym → Bool := satisfies Text.isLetterChar

/-- A capital ASCII letter made small. -/
def smallAscii : Sym → Sym
  | .char c => .char c.toLower
  | .byte b => .byte b

/-- An ASCII letter or the underscore: what an identifier starts with. -/
def isNameStart : Sym → Bool := satisfies fun c => Text.isLetterChar c || c == '_'

end Sym

end RubyDoc
