import RubyDoc.Pattern.Regex

/-!
# Ignore lists

The patterns of ignore files, matched against paths relative to a root.  A pattern with one segment
matches at any depth, a pattern with more segments only from the root; what names a directory also
matches everything below it.  A later pattern outweighs an earlier one, and a pattern that starts
with an exclamation mark takes its matches out again.
-/

namespace RubyDoc.Pattern.Ignore

/-- One pattern: whether its matches belong to the list, and what it matches. -/
structure Rule where
  includes : Bool
  regex : Regex
  deriving DecidableEq, Repr

/-- What a line of the list says. -/
inductive Entry where
  /-- A blank line, a comment, or the root itself, which is never matched. -/
  | nothing
  | rule (r : Rule)
  /-- Nothing is left of the pattern, or an escape ends it. -/
  | broken
  deriving DecidableEq, Repr

/-- The separator of path segments. -/
def slash : Sym := .char '/'

/-- One symbol of a path segment. -/
def segmentSym : Regex :=
  .one (.allBut slash)

/-- The end of a segment: a separator or the end of the path. -/
def segmentEnd : Regex :=
  .alt (.sym slash) (.anchor .finalLineEnd)

/-- The set that a bracket describes; escapes in it stand for themselves. -/
def bracketClasses : (fuel : Nat) → Text → List SymClass
  | 0, _ => []
  | _, [] => []
  | fuel + 1, a :: t =>
      match t with
      | dash :: b :: rest =>
          if dash = .char '-' then .interval a.code b.code :: bracketClasses fuel rest
          else .interval a.code a.code :: bracketClasses fuel t
      | _ => .interval a.code a.code :: bracketClasses fuel t

/-- The content of a bracket without its mark of negation, whether that mark is there, and what
follows the bracket. -/
def bracket? (t : Text) : Option (Bool × Text × Text) :=
  let negated := t.head? = some (.char '!') || t.head? = some (.char '^')
  let body := if negated then t.drop 1 else t
  let lead := if body.head? = some (.char ']') then 1 else 0
  let content := body.take lead ++ (body.drop lead).takeWhile (· ≠ .char ']')
  match body.drop content.length with
  | [] => none
  | _ :: rest => some (negated, content, rest)

/-- The expressions of the parts of one segment; none if an escape ends it. -/
def segmentParts? : (fuel : Nat) → Text → Option (List Regex)
  | 0, _ => some []
  | _, [] => some []
  | fuel + 1, s :: t =>
      if s = .char '\\' then
        match t with
        | [] => none
        | c :: rest => (segmentParts? fuel rest).map (.sym c :: ·)
      else if s = .char '*' then (segmentParts? fuel t).map (.times segmentSym 0 none :: ·)
      else if s = .char '?' then (segmentParts? fuel t).map (segmentSym :: ·)
      else if s = .char '[' then
        match bracket? t with
        | some (negated, content, rest) =>
            (segmentParts? fuel rest).map
              (.one { negated, classes := bracketClasses content.length content } :: ·)
        | none => (segmentParts? fuel t).map (.sym s :: ·)
      else (segmentParts? fuel t).map (.sym s :: ·)

/-- The expression of one segment. -/
def segment? (segment : Text) : Option Regex :=
  if segment = Text.ofString "*" then some (.times segmentSym 1 none)
  else (segmentParts? segment.length segment).map .ofList

/-- The segment that stands for any number of segments. -/
def anyDepth : Text := "**"

/-- Consecutive segments of any depth are one. -/
def collapse : List Text → List Text
  | [] => []
  | [s] => [s]
  | s :: u :: rest =>
      if s = anyDepth ∧ u = anyDepth then collapse (u :: rest) else s :: collapse (u :: rest)

/-- A segment that is empty at the end says that the pattern names a directory. -/
def openDirectory (segments : List Text) : List Text :=
  match segments.getLast? with
  | some [] => segments.dropLast ++ [anyDepth]
  | _ => segments

/-- The segments of a pattern, as seen from the root. -/
def fromRoot (segments : List Text) : List Text :=
  let anchored := match segments with
    | [] :: rest => rest
    | [only] => if only = anyDepth then [only] else [anyDepth, only]
    | [only, []] => if only = anyDepth then [only, []] else [anyDepth, only, []]
    | _ => segments
  collapse (openDirectory anchored)

/-- One symbol at least. -/
def something : Regex :=
  .times (.one (.allBut .lineFeed)) 1 none

/-- The expression of segments after the first; `separated` if a separator must come before. -/
def later? : (separated : Bool) → List Text → Option (List Regex)
  | _, [] => some [segmentEnd]
  | separated, s :: rest =>
      if s = anyDepth then
        match rest with
        | [] => some [.sym slash]
        | _ =>
            (later? true rest).map (.times (.seq (.sym slash) something) 0 (some 1) :: ·)
      else do
        let here ← segment? s
        let after ← later? true rest
        some ((if separated then [.sym slash] else []) ++ here :: after)

/-- The expression of a pattern, given its segments as seen from the root. -/
def expression? (isDirectory : Bool) (segments : List Text) : Option Regex :=
  let everything := Regex.one (.allBut .lineFeed)
  let star : Text := "*"
  if segments.isEmpty then none
  else if segments = [anyDepth] then some (if isDirectory then .sym slash else everything)
  else if segments = [anyDepth, star] then some everything
  else if segments = [anyDepth, star, anyDepth] then some (.sym slash)
  else
    match segments with
    | first :: rest =>
        if first = anyDepth then
          (later? false rest).map fun parts =>
            .ofList (.anchor .textStart :: .times (.seq something (.sym slash)) 0 (some 1) :: parts)
        else
          (later? false segments).map fun parts => .ofList (.anchor .textStart :: parts)
    | [] => none

/-- What a line of the list says. -/
def entry (line : Text) : Entry :=
  let pattern := if line.endsWith "\\ " then line else line.trimRight
  if pattern.isEmpty || pattern.startsWith "#" || pattern = Text.ofString "/" then .nothing
  else
    let includes := !pattern.startsWith "!"
    let segments := Text.splitOn slash (if includes then pattern else pattern.drop 1)
    let isDirectory := segments.getLast? = some []
    match expression? isDirectory (fromRoot segments) with
    | some regex => .rule ⟨includes, regex⟩
    | none => .broken

/-- The rules of the lines of a list; none if a line is broken. -/
def rules? : (lines : List Text) → Option (List Rule)
  | [] => some []
  | line :: rest =>
      match entry line with
      | .rule r => (rules? rest).map (r :: ·)
      | .nothing => rules? rest
      | .broken => none

/-- The path as ignore lists see it: relative, whatever it was. -/
def relativeForm (path : Text) : Text :=
  match Text.after? "/" path with
  | some rest => rest
  | none => (Text.after? "./" path).getD path

/-- Is the path in the list?  The last rule that matches decides. -/
def lists (rules : List Rule) (path : Text) : Bool :=
  match (rules.filter fun r => r.regex.search (relativeForm path)).getLast? with
  | some r => r.includes
  | none => false

end RubyDoc.Pattern.Ignore
