import RubyDoc.Text.Basic

/-!
# Brackets and quotes in type notation

Three kinds of brackets nest in a type, and quotes enclose string literals.  A separator cuts a text
only where no bracket and no quote is open.  The search for a closing bracket and the count of open
brackets see every bracket, also one between quotes.
-/

namespace RubyDoc.Signature

/-- Opens a bracket. -/
def isOpening (s : Sym) : Bool :=
  s = .char '(' || s = .char '[' || s = .char '\x7b'

/-- Closes a bracket. -/
def isClosing (s : Sym) : Bool :=
  s = .char ')' || s = .char ']' || s = .char '\x7d'

/-- Opens or closes a string literal. -/
def isQuote (s : Sym) : Bool :=
  s = .char '"' || s = .char '\''

/-- By how much a symbol changes the number of open brackets. -/
def bracketStep (s : Sym) : Int :=
  if isOpening s then 1 else if isClosing s then -1 else 0

/-- Opening brackets less closing brackets. -/
def bracketDepth (t : Text) : Int :=
  t.foldl (fun depth s => depth + bracketStep s) 0

/-- The offset of the closing bracket that brings the count to zero, counting on from `depth`. -/
def closingFrom? (depth : Int) : Text → Option Nat
  | [] => none
  | s :: t =>
      if isClosing s ∧ depth = 1 then some 0
      else (closingFrom? (depth + bracketStep s) t).map (· + 1)

/-- The offset of the bracket that closes the one a text begins with. -/
def closing? (t : Text) : Option Nat :=
  closingFrom? 0 t

/-- Where a scan stands: how many brackets are open, and which quote, if any. -/
structure Level where
  depth : Int := 0
  quote : Option Sym := none
  deriving DecidableEq, Repr

namespace Level

/-- The level after one more symbol.  Between quotes only the closing quote counts. -/
def step (l : Level) (s : Sym) : Level :=
  match l.quote with
  | some q => if s = q then { l with quote := none } else l
  | none =>
      if isQuote s then { l with quote := some s }
      else { l with depth := l.depth + bracketStep s }

/-- Neither a bracket nor a quote is open. -/
def isTop (l : Level) : Bool :=
  l.quote.isNone && l.depth == 0

end Level

/-- A separator cuts at the top level, if it is not itself a bracket or a quote. -/
def cutsAt (sep : Sym) (l : Level) (s : Sym) : Bool :=
  s = sep && l.isTop && l.step s = l

/-- The pieces between the cutting separators, from a level on. -/
def piecesFrom (sep : Sym) : Level → Text → List Text
  | _, [] => [[]]
  | l, s :: t =>
      if cutsAt sep l s then [] :: piecesFrom sep l t
      else match piecesFrom sep (l.step s) t with
        | [] => [[s]]
        | piece :: pieces => (s :: piece) :: pieces

/-- The pieces between the cutting separators. -/
def pieces (sep : Sym) (t : Text) : List Text :=
  piecesFrom sep {} t

/-- The parts of a list in type notation: the pieces without the white space around them. -/
def parts (sep : Sym) (t : Text) : List Text :=
  (pieces sep t).map Text.trim

/-- The part of a line before a comment, which starts at a `#` outside quotes. -/
def beforeComment (l : Level) : Text → Text
  | [] => []
  | s :: t =>
      if l.quote.isNone ∧ s = .char '#' then [] else s :: beforeComment (l.step s) t

/-- A line without its comment. -/
def withoutComment (t : Text) : Text :=
  beforeComment {} t

/-! ## Lengths -/

/-- The length of pieces with a separator more for each. -/
def extent : List Text → Nat
  | [] => 0
  | p :: ps => p.length + 1 + extent ps

/-- With a separator more for each piece, the pieces are as long as the text and one separator. -/
theorem extent_piecesFrom (sep : Sym) (l : Level) (t : Text) :
    extent (piecesFrom sep l t) = t.length + 1 := by
  induction t generalizing l with
  | nil => rfl
  | cons s t ih =>
      unfold piecesFrom
      split
      · simp [extent, ih, Nat.add_comm]
      · have hrest := ih (l.step s)
        cases h : piecesFrom sep (l.step s) t with
        | nil => simp [h, extent] at hrest
        | cons p ps =>
            simp [h, extent] at hrest ⊢
            omega

theorem length_le_extent (pieces : List Text) : pieces.length ≤ extent pieces := by
  induction pieces with
  | nil => simp
  | cons p ps ih =>
      simp only [extent, List.length_cons]
      omega

/-- Every piece takes its length and one symbol for each other piece. -/
theorem length_add_length_le_of_mem {pieces : List Text} {p : Text} (h : p ∈ pieces) :
    p.length + pieces.length ≤ extent pieces := by
  induction pieces with
  | nil => simp at h
  | cons q qs ih =>
      have hqs := length_le_extent qs
      simp only [extent, List.length_cons]
      rcases List.mem_cons.1 h with rfl | hmem
      · omega
      · have hp := ih hmem
        omega

/-- No piece is longer than the text. -/
theorem length_le_of_mem_pieces {sep : Sym} {t p : Text} (h : p ∈ pieces sep t) :
    p.length ≤ t.length := by
  have hsum := extent_piecesFrom sep {} t
  have hmem := length_add_length_le_of_mem h
  have hpos := List.length_pos_of_mem h
  simp only [pieces] at hmem hpos
  omega

/-- Where there are two pieces, each is shorter than the text. -/
theorem length_lt_of_mem_pieces {sep : Sym} {t p : Text} (h : p ∈ pieces sep t)
    (two : 1 < (pieces sep t).length) : p.length < t.length := by
  have hsum := extent_piecesFrom sep {} t
  have hmem := length_add_length_le_of_mem h
  simp only [pieces] at hmem two
  omega

end RubyDoc.Signature
