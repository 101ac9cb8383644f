import RubyDoc.Yaml.Block
import RubyDoc.Yaml.Plain
import RubyDoc.Yaml.Tag

/-!
# From text to YAML tokens

The lexer keeps the indentation of the open block collections and the places where a key may have
begun.  When a colon shows that there was a key, its token is put in at that place.  A key must end
on its line and within 1024 symbols; where only a key can stand, a missing colon is an error.
-/

namespace RubyDoc.Yaml

/-- A place where a key may have begun. -/
structure PossibleKey where
  /-- The depth of flow collections there. -/
  depth : Nat
  /-- The number of tokens before it. -/
  place : Nat
  /-- Nothing but a key can stand there. -/
  required : Bool
  offset : Nat
  line : Nat
  column : Nat

/-- The longest key without a sign of its own. -/
def longestKey : Nat := 1024

/-- The state of the lexer. -/
structure Lexer where
  cursor : Cursor
  /-- The tokens found, the latest first. -/
  found : List Token := []
  /-- How many flow collections are open. -/
  depth : Nat := 0
  /-- The columns of the open block collections, the innermost first. -/
  indents : List Nat := []
  /-- A key may begin here. -/
  keyAllowed : Bool := true
  /-- At most one for each depth. -/
  keys : List PossibleKey := []

namespace Lexer

/-- Adds a token. -/
def emit (l : Lexer) (t : Token) : Lexer :=
  { l with found := t :: l.found }

/-- Puts a token in behind the first `place` ones. -/
def emitAt (l : Lexer) (place : Nat) (t : Token) : Lexer :=
  let later := l.found.length - place
  { l with found := l.found.take later ++ t :: l.found.drop later }

/-- The column that lines of the innermost block collection must reach, plus one. -/
def indent (l : Lexer) : Nat :=
  match l.indents with
  | [] => 0
  | column :: _ => column + 1

/-- Forgets the places where no key can have begun any more. -/
def forgetStale (l : Lexer) : Option Lexer :=
  let isStale (k : PossibleKey) : Bool :=
    k.line ≠ l.cursor.line || l.cursor.offset - k.offset > longestKey
  if l.keys.any fun k => isStale k && k.required then none
  else some { l with keys := l.keys.filter (!isStale ·) }

/-- Gives up the key that may have begun at the present depth. -/
def dropKey (l : Lexer) : Option Lexer :=
  if l.keys.any fun k => k.depth = l.depth && k.required then none
  else some { l with keys := l.keys.filter (·.depth ≠ l.depth) }

/-- Notes that a key may begin here. -/
def saveKey (l : Lexer) : Option Lexer :=
  if l.keyAllowed then do
    let c := l.cursor
    let required := l.depth = 0 && l.indents.head? = some c.column
    let key : PossibleKey := ⟨l.depth, l.found.length, required, c.offset, c.line, c.column⟩
    let l ← l.dropKey
    some { l with keys := key :: l.keys }
  else some l

/-- Closes the block collections whose columns satisfy `p`. -/
def closeWhile (p : Nat → Bool) : List Nat → Lexer → Lexer
  | [], l => { l with indents := [] }
  | column :: rest, l =>
      if p column then closeWhile p rest (l.emit .blockEnd)
      else { l with indents := column :: rest }

/-- Closes the block collections further right than a column.  Inside a flow collection there is
nothing to close. -/
def closeTo (l : Lexer) (column : Nat) : Lexer :=
  if l.depth = 0 then closeWhile (· > column) l.indents l else l

/-- Closes all block collections. -/
def closeAll (l : Lexer) : Lexer :=
  if l.depth = 0 then closeWhile (fun _ => true) l.indents l else l

/-- Opens a block collection at a column, its token behind the first `place` ones, unless one is
open at or right of the column. -/
def openBlock (l : Lexer) (column place : Nat) (t : Token) : Lexer :=
  if l.indent ≤ column then { l.emitAt place t with indents := column :: l.indents } else l

/-- Passes over spaces, comments and line breaks up to the next token. -/
def toNextToken : (fuel : Nat) → Lexer → Lexer
  | 0, l => l
  | fuel + 1, l =>
      let c := l.cursor.skipWhile (· = .char ' ')
      let c := if c.peek? = some (.char '#') then c.skipWhile (!isBreak ·) else c
      match lineBreak? c.rest with
      | some (_, rest) =>
          toNextToken fuel
            { l with cursor := c.skipTo rest, keyAllowed := l.keyAllowed || l.depth = 0 }
      | none => { l with cursor := c }

/-- Reads a token that is not one sign: `read?` gives it and what follows. -/
def word (l : Lexer) (read? : Text → Option (Token × Text)) : Option Lexer := do
  let l ← l.saveKey
  let (token, rest) ← read? l.cursor.rest
  some { l.emit token with cursor := l.cursor.skipTo rest, keyAllowed := false }

/-- Reads a sign of `n` symbols. -/
def sign (l : Lexer) (n : Nat) (t : Token) (keyAllowed : Bool) : Lexer :=
  { l.emit t with cursor := l.cursor.skip n, keyAllowed }

/-- Reads a marker between documents. -/
def marker (l : Lexer) (t : Token) : Option Lexer := do
  let l ← l.closeAll.dropKey
  some (l.sign 3 t false)

/-- Reads a directive. -/
def directive (l : Lexer) : Option Lexer := do
  let l ← l.closeAll.dropKey
  let (d, rest) ← directive? (l.cursor.rest.drop 1)
  some { l.emit (.directive d) with cursor := l.cursor.skipTo rest, keyAllowed := false }

/-- Opens a flow collection. -/
def openFlow (l : Lexer) (t : Token) : Option Lexer := do
  let l ← l.saveKey
  some { l.sign 1 t true with depth := l.depth + 1 }

/-- Closes a flow collection; there must be one. -/
def closeFlow (l : Lexer) (t : Token) : Option Lexer := do
  let l ← l.dropKey
  if l.depth = 0 then none else some { l.sign 1 t false with depth := l.depth - 1 }

/-- Reads the comma between entries. -/
def flowEntry (l : Lexer) : Option Lexer := do
  let l ← l.dropKey
  some (l.sign 1 .flowEntry true)

/-- Reads the sign of an entry or key that stands in front of it. -/
def leading (l : Lexer) (collection t : Token) (keyAllowed : Bool) : Option Lexer := do
  if l.depth = 0 && !l.keyAllowed then none
  else
    let l := if l.depth = 0 then l.openBlock l.cursor.column l.found.length collection else l
    let l ← l.dropKey
    some (l.sign 1 t keyAllowed)

/-- Reads the colon before a value.  If a key may have begun, it has. -/
def value (l : Lexer) : Option Lexer :=
  match l.keys.find? (·.depth = l.depth) with
  | some k =>
      let l := { l with keys := l.keys.filter (·.depth ≠ l.depth) }
      let l := l.emitAt k.place .key
      let l := if l.depth = 0 then l.openBlock k.column k.place .blockMapping else l
      some (l.sign 1 .value false)
  | none => l.leading .blockMapping .value (l.depth = 0)

/-- Reads a block scalar. -/
def block (l : Lexer) : Option Lexer := do
  let l ← l.dropKey
  let (t, c) ← block? l.indent l.cursor
  some { l.emit (.scalar t false) with cursor := c, keyAllowed := true }

/-- Reads a plain scalar. -/
def plain (l : Lexer) : Option Lexer := do
  let l ← l.saveKey
  let p := Yaml.plain (0 < l.depth) l.indent l.cursor
  some { l.emit (.scalar p.value true) with cursor := p.cursor, keyAllowed := p.broken }

/-- Reads the token that begins with the symbol `s`, which `rest` follows. -/
def token (l : Lexer) (s : Sym) (rest : Text) : Option Lexer :=
  let atStart := l.cursor.column = 0
  let inFlow := 0 < l.depth
  if s = .char '%' && atStart then l.directive
  else if atStart && atMarker "---" (s :: rest) then l.marker .documentStart
  else if atStart && atMarker "..." (s :: rest) then l.marker .documentEnd
  else if s = .char '[' then l.openFlow .flowSequence
  else if s = .char '\x7b' then l.openFlow .flowMapping
  else if s = .char ']' then l.closeFlow .flowSequenceEnd
  else if s = .char '\x7d' then l.closeFlow .flowMappingEnd
  else if s = .char ',' then l.flowEntry
  else if s = .char '-' && atGap rest then l.leading .blockSequence .blockEntry true
  else if s = .char '?' && (inFlow || atGap rest) then l.leading .blockMapping .key (!inFlow)
  else if s = .char ':' && (inFlow || atGap rest) then l.value
  else if s = .char '*' then
    l.word fun t => (anchorName? (t.drop 1)).map fun (name, rest) => (.alias name, rest)
  else if s = .char '&' then
    l.word fun t => (anchorName? (t.drop 1)).map fun (name, rest) => (.anchor name, rest)
  else if s = .char '!' then l.word tag?
  else if (s = .char '|' || s = .char '>') && !inFlow then l.block
  else if s = .char '\'' || s = .char '"' then
    l.word fun t => (quoted? t).map fun (value, rest) => (.scalar value false, rest)
  else if beginsPlain inFlow (s :: rest) then l.plain
  else none

/-- Reads tokens to the end of the document's text. -/
def readAll : (fuel : Nat) → Lexer → Option Lexer
  | 0, _ => none
  | fuel + 1, l => do
      let l := toNextToken (l.cursor.rest.length + 1) l
      let l ← l.forgetStale
      let l := l.closeTo l.cursor.column
      match l.cursor.rest with
      | [] => l.closeAll.dropKey
      | s :: rest => readAll fuel (← l.token s rest)

end Lexer

/-- The text without a byte order mark at its start. -/
def withoutMark (t : Text) : Cursor :=
  let c : Cursor := ⟨t, 0, 0, 0⟩
  if t.head? = some (.char '\uFEFF') then c.next else c

/-- The tokens of a text. -/
def Token.scan (t : Text) : Option (List Token) :=
  if t.all isPrintable then
    (Lexer.readAll (t.length + 2) { cursor := withoutMark t }).map fun l => l.found.reverse
  else none

end RubyDoc.Yaml
