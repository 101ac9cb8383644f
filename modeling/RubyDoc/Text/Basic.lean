import RubyDoc.Text.CharClass

/-!
# Operations on texts

Trimming, cutting off known beginnings, splitting at a symbol, joining, and searching.  Every
function recurses on the text itself; a position is never kept, only the text that is left.
-/

namespace RubyDoc.Text

/-- Everything after the leading white space. -/
def trimLeft (t : Text) : Text :=
  t.dropWhile Sym.isBlank

/-- Everything before the trailing white space. -/
def trimRight (t : Text) : Text :=
  (t.reverse.dropWhile Sym.isBlank).reverse

/-- The text without the white space at its two ends. -/
def trim (t : Text) : Text :=
  trimRight (trimLeft t)

theorem length_trim_le (t : Text) : (trim t).length ≤ t.length := by
  have hleft : (trimLeft t).length ≤ t.length :=
    (List.dropWhile_sublist _).length_le
  have hright : (trimRight (trimLeft t)).length ≤ (trimLeft t).length := by
    have := (List.dropWhile_sublist (l := (trimLeft t).reverse) Sym.isBlank).length_le
    simpa [trimRight] using this
  exact Nat.le_trans hright hleft

/-- Is the text nothing but white space? -/
def isBlank (t : Text) : Bool :=
  t.all Sym.isBlank

/-- Does `t` begin with `head`? -/
def startsWith (t head : Text) : Bool :=
  head.isPrefixOf t

/-- Does `t` end with `tail`? -/
def endsWith (t tail : Text) : Bool :=
  tail.isSuffixOf t

/-- What follows `head` in `t`, if `t` begins with it. -/
def after? : (head t : Text) → Option Text
  | [], t => some t
  | _ :: _, [] => none
  | a :: head, b :: t => if a = b then after? head t else none

/-- The first answer that `f` gives on `t` or on what is left of `t` further on. -/
def findSome? {α : Type} (f : Text → Option α) : Text → Option α
  | [] => f []
  | s :: t => f (s :: t) <|> findSome? f t

/-- Does `part` occur in `t`? -/
def contains (t part : Text) : Bool :=
  (findSome? (after? part) t).isSome

/-- The pieces of `t` between the occurrences of the symbol `sep`: one more than these. -/
def splitOn (sep : Sym) : Text → List Text
  | [] => [[]]
  | s :: t =>
      if s = sep then [] :: splitOn sep t
      else match splitOn sep t with
        | [] => [[s]]
        | piece :: pieces => (s :: piece) :: pieces

/-- The texts in order, with `sep` between neighbours. -/
def join (sep : Text) : List Text → Text
  | [] => []
  | [t] => t
  | t :: u :: rest => t ++ sep ++ join sep (u :: rest)

/-- Does a word end before `t`, the symbol before it being one of a word? -/
def endsWord : Text → Bool
  | [] => true
  | s :: _ => !s.isWord

/-- The decimal digits of a number. -/
def ofNat (n : Nat) : Text :=
  (Nat.toDigits 10 n).map Sym.char

end RubyDoc.Text
