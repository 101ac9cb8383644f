import RubyDoc.Pattern.Regex

/-!
# Glob patterns

A glob matches a whole text: a star stands for any text, a question mark for one symbol, brackets
for one symbol of a set.  A glob is turned into a regular expression with the same matches.
-/

namespace RubyDoc.Pattern.Glob

/-- The members of a bracket, cut at the dashes that stand for intervals.  The first `least` symbols
of a piece are never such a dash.  A dash at the very end belongs to the last piece. -/
def pieces : (fuel least : Nat) → Text → List Text
  | 0, _, t => [t]
  | fuel + 1, least, t =>
      let head := t.take least ++ (t.drop least).takeWhile (· ≠ .char '-')
      match t.drop head.length with
      | [] => [t]
      | [dash] => [head ++ [dash]]
      | _ :: rest => head :: pieces fuel 2 rest

/-- Drops the intervals that run downwards, from the last to the first. -/
def dropDownward : List Text → List Text
  | [] => []
  | piece :: rest =>
      match dropDownward rest with
      | [] => [piece]
      | next :: later =>
          if (piece.getLast?.map Sym.code).getD 0 > (next.head?.map Sym.code).getD 0 then
            (piece.dropLast ++ next.drop 1) :: later
          else piece :: next :: later

/-- The class of one symbol. -/
def single (s : Sym) : SymClass :=
  .interval s.code s.code

/-- The classes of the pieces of a bracket, the first given apart: an interval from the end of each
piece to the start of the next, and the other symbols. -/
def classes (piece : Text) : List Text → List SymClass
  | [] => piece.map single
  | next :: rest =>
      match piece.getLast?, next with
      | some a, b :: after =>
          piece.dropLast.map single ++ .interval a.code b.code :: classes after rest
      | _, _ => piece.map single ++ classes next rest

/-- Does a text start with the mark of negation? -/
def isNegated (t : Text) : Bool :=
  t.head? = some (.char '!')

/-- The expression of what stands between two brackets.  The mark of negation is looked for where
the members start once the intervals that run downwards are gone. -/
def bracket (content : Text) : Regex :=
  match dropDownward (pieces content.length (if isNegated content then 2 else 1) content) with
  | [] | [[]] => .one {}
  | first :: rest =>
      if isNegated first then .one { negated := true, classes := classes (first.drop 1) rest }
      else .one { classes := classes first rest }

/-- The content of a bracket and what follows it, given what follows the opening bracket.  A closing
bracket that comes first, or first after the mark of negation, is part of the content. -/
def bracketContent? (t : Text) : Option (Text × Text) :=
  let lead := if t.head? = some (.char '!') then 1 else 0
  let lead := if (t.drop lead).head? = some (.char ']') then lead + 1 else lead
  let content := t.take lead ++ (t.drop lead).takeWhile (· ≠ .char ']')
  match t.drop content.length with
  | [] => none
  | _ :: rest => some (content, rest)

/-- The expressions of the parts of a glob.  Each part takes at least one symbol. -/
def parts : (fuel : Nat) → Text → List Regex
  | 0, _ => []
  | _, [] => []
  | fuel + 1, s :: t =>
      if s = .char '*' then .times (.one .all) 0 none :: parts fuel t
      else if s = .char '?' then .one .all :: parts fuel t
      else if s = .char '[' then
        match bracketContent? t with
        | some (content, rest) => bracket content :: parts fuel rest
        | none => .sym s :: parts fuel t
      else .sym s :: parts fuel t

/-- The expression of a glob, to be matched from the start. -/
def toRegex (glob : Text) : Regex :=
  .ofList (parts glob.length glob ++ [.anchor .textEnd])

/-- Does the glob match the whole text? -/
def isMatch (glob t : Text) : Bool :=
  (toRegex glob).startsMatch t

end RubyDoc.Pattern.Glob
