import RubyDoc.Yaml.Cursor

/-!
# Block scalars

The lines of a block scalar are those indented by at least as much as its first one.  In literal
style every line break stays; in folded style a break between two lines that begin with text counts
as a space.  An indicator says what happens to the breaks at the end.
-/

namespace RubyDoc.Yaml

/-- What happens to the line breaks at the end of a block scalar. -/
inductive Chomping where
  /-- One break stays. -/
  | clip
  | strip
  | keep
  deriving DecidableEq, Repr

/-- The indicators after the sign of a block scalar. -/
structure BlockHeader where
  chomping : Chomping
  /-- The indentation relative to what surrounds the scalar, if it is given. -/
  indent : Option Nat
  deriving DecidableEq, Repr

/-- Reads a chomping indicator. -/
def chomping? (t : Text) : Option (Chomping × Text) :=
  match t with
  | s :: rest =>
      if s = .char '+' then some (.keep, rest)
      else if s = .char '-' then some (.strip, rest)
      else none
  | [] => none

/-- Reads an indentation indicator. -/
def indentDigit? (t : Text) : Option (Nat × Text) :=
  match t with
  | .char c :: rest => if c.isDigit then some (c.toNat - '0'.toNat, rest) else none
  | _ => none

/-- Reads the indicators in either order; an indentation of zero is refused. -/
def blockHeader? (t : Text) : Option (BlockHeader × Text) :=
  let settled (chomping : Chomping) (indent : Option Nat) (rest : Text) :
      Option (BlockHeader × Text) :=
    if indent = some 0 ∨ !atSpaceOrLineEnd rest then none else some (⟨chomping, indent⟩, rest)
  match chomping? t with
  | some (chomping, rest) =>
      match indentDigit? rest with
      | some (n, rest) => settled chomping (some n) rest
      | none => settled chomping none rest
  | none =>
      match indentDigit? t with
      | some (n, rest) =>
          match chomping? rest with
          | some (chomping, rest) => settled chomping (some n) rest
          | none => settled .clip (some n) rest
      | none => settled .clip none t

/-- Passes over spaces, a comment and the line break after it; nothing else may be there. -/
def restOfLine? (c : Cursor) : Option Cursor :=
  let c := c.skipWhile (· = .char ' ')
  let c := if c.peek? = some (.char '#') then c.skipWhile (!isBreak ·) else c
  if atLineEnd c.rest then
    match lineBreak? c.rest with
    | some (_, rest) => some (c.skipTo rest)
    | none => some c
  else none

/-- The line breaks before the first line with text, the deepest column seen, and the place after
them. -/
def leadingBreaks : (fuel : Nat) → (breaks : Text) → (deepest : Nat) → Cursor → Text × Nat × Cursor
  | 0, breaks, deepest, c => (breaks, deepest, c)
  | fuel + 1, breaks, deepest, c =>
      if c.peek? = some (.char ' ') then
        let c := c.next
        leadingBreaks fuel breaks (max deepest c.column) c
      else match lineBreak? c.rest with
        | some (s, rest) => leadingBreaks fuel (breaks ++ [s]) deepest (c.skipTo rest)
        | none => (breaks, deepest, c)

/-- Passes over spaces up to a column. -/
def indentTo (indent : Nat) (c : Cursor) : Cursor :=
  c.skip (min (indent - c.column) (c.rest.takeWhile (· = .char ' ')).length)

/-- The line breaks between two lines with text, indentation passed over, and the place after. -/
def innerBreaks (indent : Nat) : (fuel : Nat) → (breaks : Text) → Cursor → Text × Cursor
  | 0, breaks, c => (breaks, indentTo indent c)
  | fuel + 1, breaks, c =>
      let c := indentTo indent c
      match lineBreak? c.rest with
      | some (s, rest) => innerBreaks indent fuel (breaks ++ [s]) (c.skipTo rest)
      | none => (breaks, c)

/-- Does another line of the scalar begin at the cursor? -/
def goesOn (indent : Nat) (c : Cursor) : Bool :=
  c.column = indent && !c.rest.isEmpty

/-- Does `t` begin with text, not with more indentation? -/
def beginsText (t : Text) : Bool :=
  !t.head?.any isSpace

/-- The lines of a block scalar from a cursor on, which stands at their indentation.  `value` is
what has been read, `breaks` the breaks since.  The result also has the break after the last line
and the breaks after that. -/
def blockLines (folded : Bool) (indent : Nat) :
    (fuel : Nat) → (value breaks : Text) → Cursor → Text × Text × Text × Cursor
  | 0, value, breaks, c => (value, [], breaks, c)
  | fuel + 1, value, breaks, c =>
      let text := c.rest.takeWhile (!isBreak ·)
      let value := value ++ breaks ++ text
      let startsText := beginsText c.rest
      let c := c.skip text.length
      let (ending, c) : Text × Cursor := match lineBreak? c.rest with
        | some (s, rest) => ([s], c.skipTo rest)
        | none => ([], c)
      let (breaks, c) := innerBreaks indent (c.rest.length + 1) [] c
      if goesOn indent c then
        let joint : Text :=
          if folded && ending = [.lineFeed] && startsText && beginsText c.rest then
            if breaks.isEmpty then " " else []
          else ending
        blockLines folded indent fuel (value ++ joint) breaks c
      else (value, ending, breaks, c)

/-- The block scalar whose sign stands at the cursor.  Its surroundings are indented by
`outer - 1`. -/
def block? (outer : Nat) (c : Cursor) : Option (Text × Cursor) := do
  let folded := c.peek? = some (.char '>')
  let c := c.next
  let (header, rest) ← blockHeader? c.rest
  let c ← restOfLine? (c.skipTo rest)
  let least := max outer 1
  let fuel := c.rest.length + 1
  let (indent, breaks, c) : Nat × Text × Cursor := match header.indent with
    | some n =>
        let (breaks, c) := innerBreaks (least + n - 1) fuel [] c
        (least + n - 1, breaks, c)
    | none =>
        let (breaks, deepest, c) := leadingBreaks fuel [] 0 c
        (max least deepest, breaks, c)
  let (value, ending, breaks, c) :=
    if goesOn indent c then blockLines folded indent fuel [] breaks c else ([], [], breaks, c)
  match header.chomping with
  | .strip => some (value, c)
  | .clip => some (value ++ ending, c)
  | .keep => some (value ++ ending ++ breaks, c)

end RubyDoc.Yaml
