import RubyDoc.Yaml.Cursor

/-!
# Plain scalars

A scalar without quotes ends at a colon or a comment sign that white space sets off, and inside
brackets also at the signs of the collection.  It may go on in further lines that are indented
deeply enough; a line break then counts as one space.
-/

namespace RubyDoc.Yaml

/-- Can a plain scalar begin with `t`? -/
def beginsPlain (inFlow : Bool) (t : Text) : Bool :=
  match t with
  | [] => false
  | s :: rest =>
      (!isSpace s && !isBreak s && !isOneOf "-?:,[]\x7b\x7d#&*!|>'\"%@\x60" s) ||
        (!atGap rest && (s = .char '-' || (!inFlow && (s = .char '?' || s = .char ':'))))

/-- The signs of a flow collection that end a key. -/
def isFlowSign (s : Sym) : Bool :=
  isOneOf ",[]\x7b\x7d" s

/-- The part of a plain scalar up to the next white space. -/
def plainWord (inFlow : Bool) : Text → Text
  | [] => []
  | s :: t =>
      if isSpace s || isBreak s then []
      else if s = .char ':' && (atGap t || (inFlow && t.head?.any isFlowSign)) then []
      else if inFlow && (isFlowSign s || s = .char '?') then []
      else s :: plainWord inFlow t

/-- The line breaks that `t` begins with, spaces passed over, and the rest; none if a marker between
documents follows one of them. -/
def plainBreaks? : (fuel : Nat) → Text → Option (Text × Text)
  | 0, t => some ([], t)
  | fuel + 1, t =>
      if atAnyMarker t then none
      else
        let t := t.dropWhile (· = .char ' ')
        match lineBreak? t with
        | none => some ([], t)
        | some (s, rest) => (plainBreaks? fuel rest).map fun (more, rest) => (s :: more, rest)

/-- What lies between two words of a plain scalar. -/
structure PlainGap where
  /-- What the gap counts as; nothing if the scalar cannot go on after it. -/
  value : Text
  rest : Text
  /-- The gap holds a line break. -/
  broken : Bool

/-- The gap that `t` begins with. -/
def plainGap (t : Text) : PlainGap :=
  let spaces := t.takeWhile (· = .char ' ')
  let rest := t.dropWhile (· = .char ' ')
  match lineBreak? rest with
  | none => ⟨spaces, rest, false⟩
  | some (b, rest) =>
      match plainBreaks? (rest.length + 1) rest with
      | none => ⟨[], rest, true⟩
      | some (more, rest) =>
          let value := if b ≠ .lineFeed then b :: more else if more.isEmpty then " " else more
          ⟨value, rest, true⟩

/-- A plain scalar that has been read. -/
structure PlainScalar where
  value : Text
  cursor : Cursor
  /-- A new line begins after the scalar. -/
  broken : Bool

/-- The words of a plain scalar from a cursor on, after `value` and a gap that counts as `gap`. -/
def plainFrom (inFlow : Bool) (indent : Nat) :
    (fuel : Nat) → (value gap : Text) → (broken : Bool) → Cursor → PlainScalar
  | 0, value, _, broken, c => ⟨value, c, broken⟩
  | fuel + 1, value, gap, broken, c =>
      let word := plainWord inFlow c.rest
      if c.peek? = some (.char '#') ∨ word.isEmpty then ⟨value, c, broken⟩
      else
        let value := value ++ gap ++ word
        let g := plainGap (c.rest.drop word.length)
        let c := c.skipTo g.rest
        if g.value.isEmpty || c.peek? = some (.char '#') || (!inFlow && c.column < indent) then
          ⟨value, c, g.broken⟩
        else plainFrom inFlow indent fuel value g.value g.broken c

/-- The plain scalar at a cursor, whose further lines are indented by `indent` at least. -/
def plain (inFlow : Bool) (indent : Nat) (c : Cursor) : PlainScalar :=
  plainFrom inFlow indent (c.rest.length + 1) [] [] false c

end RubyDoc.Yaml
