import RubyDoc.Text.Basic
import RubyDoc.Text.Case

/-!
# Regular expressions

The structure of a regular expression and what it finds.  Matching keeps the set of places that can
be reached: each expression moves places forward, a repetition moves them until no new place turns
up.  Nothing depends on the order of the alternatives, because only the existence of a match counts.
-/

namespace RubyDoc.Pattern

/-- A property or interval of symbols. -/
inductive SymClass where
  /-- The codes from `low` to `high`. -/
  | interval (low high : Nat)
  | word | notWord | digit | notDigit | blank | notBlank
  deriving DecidableEq, Repr

namespace SymClass

/-- Does the class hold the symbol? -/
def holds : SymClass → Sym → Bool
  | interval low high, s => low ≤ s.code && s.code ≤ high
  | word, s => s.isWord
  | notWord, s => !s.isWord
  | digit, s => s.isDigit
  | notDigit, s => !s.isDigit
  | blank, s => s.isBlank
  | notBlank, s => !s.isBlank

/-- Does the class hold the symbol when case does not matter? -/
def holdsAnyCase (c : SymClass) (s : Sym) : Bool :=
  match c with
  | interval low high => (Text.caseVariants s.code).any fun n => low ≤ n && n ≤ high
  | _ => c.holds s

end SymClass

/-- A set of symbols: those in some class, or those in none. -/
structure SymSet where
  negated : Bool := false
  classes : List SymClass := []
  anyCase : Bool := false
  deriving DecidableEq, Repr

namespace SymSet

/-- Does the set hold the symbol? -/
def holds (set : SymSet) (s : Sym) : Bool :=
  let held := set.classes.any fun c => if set.anyCase then c.holdsAnyCase s else c.holds s
  held != set.negated

/-- The set of one symbol. -/
def only (s : Sym) : SymSet :=
  { classes := [.interval s.code s.code] }

/-- The set of all symbols but one. -/
def allBut (s : Sym) : SymSet :=
  { negated := true, classes := [.interval s.code s.code] }

/-- The set of all symbols. -/
def all : SymSet :=
  { negated := true }

end SymSet

/-- A condition on a place between two symbols. -/
inductive Anchor where
  | textStart | textEnd
  /-- The end, or just before a line feed at the end. -/
  | finalLineEnd
  | lineStart | lineEnd
  | wordBoundary | noWordBoundary
  deriving DecidableEq, Repr

/-- A regular expression. -/
inductive Regex where
  | empty
  | one (set : SymSet)
  | anchor (a : Anchor)
  | seq (first second : Regex)
  | alt (first second : Regex)
  /-- From `least` to `most` copies; without `most` there is no limit. -/
  | times (r : Regex) (least : Nat) (most : Option Nat)
  /-- A place from which `r` finds something, or from which it finds nothing. -/
  | ahead (r : Regex) (negated : Bool)
  deriving DecidableEq, Repr

/-- A place in a text: the symbol before it and the text after it. -/
structure Place where
  before : Option Sym
  after : Text
  deriving DecidableEq, Repr

namespace Place

/-- Does a word go on from before the place? -/
def wordBefore (p : Place) : Bool :=
  p.before.any Sym.isWord

/-- Does a word go on after the place? -/
def wordAfter (p : Place) : Bool :=
  p.after.head?.any Sym.isWord

/-- Is there no symbol on either side? -/
def isBare (p : Place) : Bool :=
  p.before.isNone && p.after.isEmpty

/-- Does the condition hold at the place?  In a text without symbols there is no place inside or
between words, so neither condition on words holds. -/
def satisfies (p : Place) : Anchor → Bool
  | .textStart => p.before.isNone
  | .textEnd => p.after.isEmpty
  | .finalLineEnd => p.after.isEmpty || p.after = [.lineFeed]
  | .lineStart => p.before.isNone || p.before = some .lineFeed
  | .lineEnd => p.after.isEmpty || p.after.head? = some .lineFeed
  | .wordBoundary => p.wordBefore != p.wordAfter
  | .noWordBoundary => !p.isBare && p.wordBefore == p.wordAfter

/-- The place one symbol further on, if the set holds that symbol. -/
def step? (p : Place) (set : SymSet) : Option Place :=
  match p.after with
  | [] => none
  | s :: rest => if set.holds s then some ⟨some s, rest⟩ else none

/-- All places of a text whose first symbol follows `before`. -/
def allFrom (before : Option Sym) : Text → List Place
  | [] => [⟨before, []⟩]
  | s :: rest => ⟨before, s :: rest⟩ :: allFrom (some s) rest

/-- The places of both lists, each once.  In one text a place is known by what is left. -/
def union (ps : List Place) : List Place → List Place
  | [] => ps
  | q :: qs =>
      if ps.any fun p => p.after.length = q.after.length then union ps qs else union (ps ++ [q]) qs

/-- Everything that `move` reaches from `ps` in at most `rounds` rounds. -/
def closure (move : List Place → List Place) : (rounds : Nat) → List Place → List Place
  | 0, ps => ps
  | rounds + 1, ps =>
      let more := union ps (move ps)
      if more.length = ps.length then ps else closure move rounds more

/-- The number of places that can lie at or after the places of a list. -/
def room (ps : List Place) : Nat :=
  ps.foldl (fun n p => max n p.after.length) 0 + 1

end Place

namespace Regex

/-- The places that the expression can move to from the places of a list. -/
def reach : Regex → List Place → List Place
  | empty, ps => ps
  | one set, ps => ps.filterMap fun p => p.step? set
  | anchor a, ps => ps.filter fun p => p.satisfies a
  | seq r q, ps => reach q (reach r ps)
  | alt r q, ps => Place.union (reach r ps) (reach q ps)
  | times r least most, ps =>
      let start := Nat.repeat (reach r) least ps
      let rounds := match most with
        | some m => m - least
        | none => Place.room start
      Place.closure (reach r) rounds start
  | ahead r negated, ps => ps.filter fun p => (reach r [p]).isEmpty == negated

/-- The expression for a sequence. -/
def ofList (rs : List Regex) : Regex :=
  rs.foldr seq empty

/-- The expression for one given symbol. -/
def sym (s : Sym) : Regex :=
  one (.only s)

/-- The expression for a given text. -/
def text (t : Text) : Regex :=
  ofList (t.map sym)

/-- Does the expression match somewhere in the text? -/
def search (r : Regex) (t : Text) : Bool :=
  !(r.reach (Place.allFrom none t)).isEmpty

/-- Does the expression match from the start of the text? -/
def startsMatch (r : Regex) (t : Text) : Bool :=
  !(r.reach [⟨none, t⟩]).isEmpty

end Regex

end RubyDoc.Pattern
