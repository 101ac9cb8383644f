import RubyDoc.Syntax.Source

/-!
# Listings of syntax trees

A listing writes a node in parentheses: the name of its kind, the row and the byte column of its
start and of its end, then its children, each after the name of the field that it fills, if it fills
one.  The name of an anonymous node is quoted, and a node that the parser supplied is marked
`MISSING`.  Blanks, commas, square brackets and hyphens only separate.  What follows the first node
is not read.

    (program [0, 0] - [1, 0] (method [0, 0] - [0, 10] name: (identifier [0, 4] - [0, 5])))
-/

namespace RubyDoc.Syntax.Listing

/-- A piece of a listing. -/
inductive Piece where
  | opening
  | closing
  | word (w : String)
  | quoted (w : String)
  deriving DecidableEq, Repr

/-- May the character stand in a word?  A colon ends the name of a field. -/
def isWordChar (c : Char) : Bool :=
  c.isAlphanum || c = '_' || c = ':'

/-- The word that is being read, before further pieces. -/
def endWord (word : List Char) (rest : List Piece) : List Piece :=
  if word.isEmpty then rest else .word (String.ofList word.reverse) :: rest

mutual

/-- The pieces of a listing; `word` is the word just being read, its last character first. -/
def piecesFrom (word : List Char) : List Char → List Piece
  | [] => endWord word []
  | c :: cs =>
      if isWordChar c then piecesFrom (c :: word) cs
      else if c = '"' then endWord word (quotedFrom [] cs)
      else if c = '(' then endWord word (.opening :: piecesFrom [] cs)
      else if c = ')' then endWord word (.closing :: piecesFrom [] cs)
      else endWord word (piecesFrom [] cs)

/-- The pieces from inside a quoted name on; `name` is its part so far, last character first. -/
def quotedFrom (name : List Char) : List Char → List Piece
  | [] => [.quoted (String.ofList name.reverse)]
  | c :: cs =>
      if c = '"' then .quoted (String.ofList name.reverse) :: piecesFrom [] cs
      else quotedFrom (c :: name) cs

end

/-- A node that is not closed yet; positions and children have the latest first. -/
structure Opened where
  field : Option Field
  name : String := ""
  isNamed : Bool := true
  isMissing : Bool := false
  positions : List Nat := []
  children : List Node := []
  deriving Repr

/-- The byte offsets at which the rows of a text start. -/
def rowStarts (bytes : List UInt8) : List Nat :=
  0 :: (bytes.zipIdx.filter fun entry => entry.1 = 10).map fun entry => entry.2 + 1

/-- The closed node; none unless its two ends were given and lie in rows of the text. -/
def Opened.close? (starts : List Nat) (o : Opened) : Option Node :=
  match o.positions with
  | [endColumn, endRow, startColumn, startRow] => do
      let kind := Kind.ofName o.name
      let startOffset ← starts[startRow]?
      let endOffset ← starts[endRow]?
      some { kind
             field := o.field
             startByte := startOffset + startColumn
             endByte := endOffset + endColumn
             row := startRow
             isNamed := o.isNamed
             isMissing := o.isMissing
             hasError := kind = .error || o.isMissing || o.children.any (·.hasError)
             children := o.children.reverse }
  | _ => none

/-- The node after a word in it: a number, the mark of supplied nodes, or the name of its kind. -/
def Opened.read (o : Opened) (w : String) : Opened :=
  match w.toNat? with
  | some n => { o with positions := n :: o.positions }
  | none => if w = "MISSING" then { o with isMissing := true } else { o with name := w }

/-- How far a listing has been read. -/
structure Reading where
  /-- The nodes around the place, the innermost first. -/
  opened : List Opened := []
  /-- The field announced for the next node. -/
  field : Option Field := none
  root : Option Node := none
  deriving Repr

/-- Reads one more piece. -/
def Reading.step (starts : List Nat) (r : Reading) (p : Piece) : Option Reading :=
  if r.root.isSome then some r
  else match p, r.opened with
    | .opening, opened => some { opened := { field := r.field } :: opened }
    | .closing, o :: parent :: rest => do
        let node ← o.close? starts
        some { opened := { parent with children := node :: parent.children } :: rest }
    | .closing, [o] => do some { root := some (← o.close? starts) }
    | .quoted w, o :: rest =>
        some { r with opened := { o with name := w, isNamed := false } :: rest }
    | .word w, o :: rest =>
        if w.endsWith ":" then
          some { r with field := some (.ofName (w.takeWhile (· ≠ ':')).toString) }
        else some { r with opened := o.read w :: rest }
    | _, [] => none

/-- The tree that a listing gives for a text; none if it is no listing. -/
def read? (text : Text) (listing : String) : Option Node :=
  let starts := rowStarts (Utf8.encode text)
  ((piecesFrom [] listing.toList).foldlM (Reading.step starts) {}).bind Reading.root

end RubyDoc.Syntax.Listing
