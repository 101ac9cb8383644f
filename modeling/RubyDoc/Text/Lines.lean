import RubyDoc.Text.Basic

/-!
# Lines

A line ends at a line feed.  A carriage return before the line feed belongs to the line's text but
not to what the line says, so the two usual line endings behave alike.  The module also gives the
wider notion of line break that sequential readers use, and one way of writing all line endings as
line feeds.
-/

namespace RubyDoc

/-- A complete line of a text: where it starts and what stands before its line feed. -/
structure Line where
  start : Nat
  raw : Text
  deriving DecidableEq, Repr

namespace Line

/-- What the line says: its text without a carriage return at the end. -/
def text (l : Line) : Text :=
  if l.raw.getLast? = some .carriageReturn then l.raw.dropLast else l.raw

/-- The offset just past the line feed that ends the line. -/
def stop (l : Line) : Nat :=
  l.start + l.raw.length + 1

end Line

namespace Text

/-- The pieces between line feeds, the last one not ended by any. -/
def lines (t : Text) : List Text :=
  splitOn .lineFeed t

/-- The lines that a line feed ends, top to bottom, when the text starts at offset `start`. -/
def completeLinesFrom (start : Nat) (pieces : List Text) : List Line :=
  match pieces with
  | [] => []
  | [_] => []
  | piece :: next :: rest =>
      ⟨start, piece⟩ :: completeLinesFrom (start + piece.length + 1) (next :: rest)

/-- The lines that a line feed ends, top to bottom. -/
def completeLines (t : Text) : List Line :=
  completeLinesFrom 0 t.lines

/-- The offset of the first symbol of the line that holds the offset `k`. -/
def lineStart (t : Text) (k : Nat) : Nat :=
  let before := t.take k
  before.length - (before.reverse.takeWhile (· ≠ .lineFeed)).length

/-- A space or a tab. -/
def isIndentSym (s : Sym) : Bool :=
  s = .char ' ' || s = .char '\t'

/-- The spaces and tabs from the offset `start` on. -/
def indentAt (t : Text) (start : Nat) : Text :=
  (t.drop start).takeWhile isIndentSym

/-- The ending that new lines get: carriage return and line feed if the text has one such pair. -/
def newline (t : Text) : Text :=
  if t.contains "\r\n" then "\r\n" else "\n"

/-- Every line ending written as one line feed. -/
def unifyNewlines : Text → Text
  | [] => []
  | [s] => if s = .carriageReturn then [.lineFeed] else [s]
  | s :: r :: rest =>
      if s = .carriageReturn then
        if r = .lineFeed then unifyNewlines (r :: rest)
        else .lineFeed :: unifyNewlines (r :: rest)
      else s :: unifyNewlines (r :: rest)

/-- The characters that end a line for a reader of records: line feed, vertical tab, form feed,
carriage return, the three information separators, next line, and the two Unicode separators. -/
def isBreakChar (c : Char) : Bool :=
  let n := c.toNat
  (10 ≤ n && n ≤ 13) || (28 ≤ n && n ≤ 30) || n == 0x85 || n == 0x2028 || n == 0x2029

/-- The records of a text: the pieces that its line breaks end, and a last one that none ends. -/
def recordsFrom : (current : Text) → Text → List Text
  | current, [] => if current.isEmpty then [] else [current.reverse]
  | current, [s] => if s.satisfies isBreakChar then [current.reverse] else [(s :: current).reverse]
  | current, s :: r :: rest =>
      if s = .carriageReturn ∧ r = .lineFeed then recordsFrom current (r :: rest)
      else if s.satisfies isBreakChar then current.reverse :: recordsFrom [] (r :: rest)
      else recordsFrom (s :: current) (r :: rest)

/-- The records of a text; a line break at the very end starts no further record. -/
def records (t : Text) : List Text :=
  recordsFrom [] t

end Text

end RubyDoc
