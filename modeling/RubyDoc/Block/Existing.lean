import RubyDoc.Comment.Line

/-!
# What a comment already documents

The tags in the lines of an existing comment: which parameters, exceptions and attributes they name,
and whether there is a result, a visibility, or the note on module functions.
-/

namespace RubyDoc.Block

/-- The note on a function of a module, up to what it says. -/
def moduleFunctionNote : Text := "@note module_function:"

/-- What follows white space of at least one symbol. -/
def afterBlank? (t : Text) : Option Text :=
  if t.head?.any Sym.isBlank then some t.trimLeft else none

/-- The text in brackets at the start, and what follows it. -/
def bracketed? (t : Text) : Option (Text × Text) :=
  match t with
  | s :: rest =>
      let inside := rest.takeWhile (· ≠ .char ']')
      match rest.drop inside.length with
      | _ :: after => if s = .char '[' then some (inside, after) else none
      | [] => none
  | [] => none

/-- The name at the start: a letter or underscore, more of a word, perhaps one mark at the end. -/
def leadingName? (t : Text) : Option Text :=
  match t with
  | s :: rest =>
      if s.isNameStart then
        let word := rest.takeWhile Sym.isWord
        let mark := ((rest.drop word.length).take 1).filter fun m => m = .char '?' || m = .char '!'
        some (s :: word ++ mark)
      else none
  | [] => none

/-- The name after `tag` at the start, a type in brackets passed over. -/
def nameAfter? (tag t : Text) : Option Text := do
  let rest ← (Text.after? tag t).bind afterBlank?
  match (bracketed? rest).bind fun (_, after) => afterBlank? after with
  | some after => leadingName? after
  | none => leadingName? rest

/-- The name after the first `tag` in a line that has one. -/
def nameIn? (tag line : Text) : Option Text :=
  Text.findSome? (nameAfter? tag) line

/-- Does the line hold one of the tags as a whole word? -/
def holdsTag (tags : List Text) (line : Text) : Bool :=
  (Text.findSome? (fun t => if Comment.startsWithWord tags t then some () else none) line).isSome

/-- The exceptions after a raise tag at the start: those in brackets, or else a path. -/
def raisedAfter? (t : Text) : Option Text := do
  let rest ← (Text.after? "@raise" t).bind afterBlank?
  match bracketed? rest with
  | some (inside, _) => some inside
  | none =>
      match rest with
      | s :: more =>
          if s.isNameStart || s = .char ':' then
            some (s :: more.takeWhile fun c => c.isWord || c = .char ':')
          else none
      | [] => none

/-- The exceptions that the first raise tag of a line lists. -/
def raisedIn (line : Text) : List Text :=
  let listed := (Text.findSome? raisedAfter? line).getD []
  ((Text.splitOn (.char ',') listed).map Text.trim).filter fun name => !name.isEmpty

/-- What a comment documents. -/
structure Existing where
  params : List Text
  raised : List Text
  attributes : List Text
  hasReturn : Bool
  hasVisibility : Bool
  hasModuleNote : Bool
  endsWithBlank : Bool
  deriving DecidableEq, Repr

/-- What the lines of a comment document. -/
def Existing.ofLines (lines : List Text) : Existing where
  params := lines.filterMap (nameIn? "@param")
  raised := lines.flatMap raisedIn
  attributes := lines.filterMap (nameIn? "@!attribute")
  hasReturn := lines.any (holdsTag ["@return"])
  hasVisibility := lines.any (holdsTag ["@private", "@protected"])
  hasModuleNote := lines.any (Text.contains · moduleFunctionNote)
  endsWithBlank := lines.getLast?.any Comment.isEmptyComment

end RubyDoc.Block
