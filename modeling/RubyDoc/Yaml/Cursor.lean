import RubyDoc.Text.Basic

/-!
# Places in a YAML document

Indentation gives a YAML document its structure, so a reader knows the line and the column of what
is left.  The module also names the classes of symbols that the format distinguishes.
-/

namespace RubyDoc.Yaml

/-- The symbols that may occur in a document at all. -/
def isPrintable (s : Sym) : Bool :=
  s.satisfies fun c =>
    let n := c.toNat
    n = 9 || n = 10 || n = 13 || (0x20 ≤ n && n ≤ 0x7E) || n = 0x85 ||
      (0xA0 ≤ n && n ≤ 0xFFFD) || 0x10000 ≤ n

/-- Ends a line. -/
def isBreak (s : Sym) : Bool :=
  s = .char '\n' || s = .char '\r' || s = .char '\u0085' || s = .char '\u2028' ||
    s = .char '\u2029'

/-- A space or a tab. -/
def isSpace (s : Sym) : Bool :=
  s = .char ' ' || s = .char '\t'

/-- A letter, a digit, a hyphen or an underscore: a symbol of an anchor's name. -/
def isNameSym (s : Sym) : Bool :=
  s.satisfies fun c => c.isAlphanum || c == '-' || c == '_'

/-- Is the symbol one of the characters of `set`? -/
def isOneOf (set : String) (s : Sym) : Bool :=
  s.satisfies fun c => set.toList.contains c

/-- Does `t` begin with the end of a word: white space or the end of the document? -/
def atGap (t : Text) : Bool :=
  t.head?.all fun s => isSpace s || isBreak s

/-- Does `t` begin with the end of a line? -/
def atLineEnd (t : Text) : Bool :=
  t.head?.all isBreak

/-- Does `t` begin with a space or the end of a line?  A tab is neither. -/
def atSpaceOrLineEnd (t : Text) : Bool :=
  t.head?.all fun s => s = .char ' ' || isBreak s

/-- Does `t`, at the start of a line, begin with the marker `marker` between documents? -/
def atMarker (marker : Text) (t : Text) : Bool :=
  (Text.after? marker t).any atGap

/-- Does `t`, at the start of a line, begin with either marker between documents? -/
def atAnyMarker (t : Text) : Bool :=
  atMarker "---" t || atMarker "..." t

/-- The line break that `t` begins with, as it counts in a value, and what follows. -/
def lineBreak? : Text → Option (Sym × Text)
  | [] => none
  | s :: t =>
      if s = .carriageReturn ∧ t.head? = some .lineFeed then some (.lineFeed, t.tail)
      else if s = .char '\u2028' ∨ s = .char '\u2029' then some (s, t)
      else if isBreak s then some (.lineFeed, t)
      else none

/-- Where a reader stands: what is left, how far it has come, and the line and the column. -/
structure Cursor where
  rest : Text
  offset : Nat := 0
  line : Nat := 0
  column : Nat := 0

namespace Cursor

/-- Does the line end with `s`, given what follows?  A carriage return leaves that to a line feed
after it. -/
def endsLine (s : Sym) (t : Text) : Bool :=
  isBreak s && !(s = .carriageReturn && t.head? = some .lineFeed)

/-- The next symbol passed over.  A byte order mark takes no column. -/
def next (c : Cursor) : Cursor :=
  match c.rest with
  | [] => c
  | s :: t =>
      if endsLine s t then ⟨t, c.offset + 1, c.line + 1, 0⟩
      else ⟨t, c.offset + 1, c.line, if s = .char '\uFEFF' then c.column else c.column + 1⟩

/-- The next `n` symbols passed over. -/
def skip : (n : Nat) → Cursor → Cursor
  | 0, c => c
  | n + 1, c => skip n c.next

/-- Everything before `rest`, an ending of what is left, passed over. -/
def skipTo (rest : Text) (c : Cursor) : Cursor :=
  c.skip (c.rest.length - rest.length)

/-- The symbols that satisfy `p` passed over. -/
def skipWhile (p : Sym → Bool) (c : Cursor) : Cursor :=
  c.skip (c.rest.takeWhile p).length

/-- The next symbol. -/
def peek? (c : Cursor) : Option Sym :=
  c.rest.head?

end Cursor

end RubyDoc.Yaml
