import RubyDoc.Text.Basic

/-!
# Comment lines

What a line above a definition can be: blank, a comment, a directive to some tool, or a line of
generated documentation.  Directives are never touched; a marker is what makes a comment
documentation.  All tests look at one line without its terminator.
-/

namespace RubyDoc.Comment

/-- Is the first symbol of the line that is not white space the comment sign? -/
def isComment (line : Text) : Bool :=
  line.trimLeft.head? = some (.char '#')

/-- What follows the comment sign. -/
def afterSign? (line : Text) : Option Text :=
  match line.trimLeft with
  | s :: rest => if s = .char '#' then some rest else none
  | [] => none

/-- What a comment line says: everything after the sign and the white space that follows it. -/
def content? (line : Text) : Option Text :=
  (afterSign? line).map Text.trimLeft

/-- Is the line a comment that says nothing? -/
def isEmptyComment (line : Text) : Bool :=
  (content? line).any List.isEmpty

/-- What follows the colon after `key`, without white space around the colon. -/
def valueOf? (key t : Text) : Option Text := do
  let rest ← Text.after? key t
  let value ← Text.after? ":" rest.trimLeft
  some value.trimLeft

/-- Does `t` begin with one of `words`, and does the word end there? -/
def startsWithWord (words : List Text) (t : Text) : Bool :=
  words.any fun word => (Text.after? word t).any Text.endsWord

/-! ## Directives -/

/-- A switch for the linter. -/
def isLinterSwitch (t : Text) : Bool :=
  (valueOf? "rubocop" t).any (startsWithWord ["disable", "enable", "todo"])

/-- The names of the magic comments with one word as their value. -/
def wordPragmas : List Text :=
  ["frozen_string_literal", "warn_indent", "shareable_constant_value", "typed"]

/-- Does `t` consist of one word and white space after it? -/
def isOneWord (t : Text) : Bool :=
  t.head?.any Sym.isWord && Text.isBlank (t.dropWhile Sym.isWord)

/-- A magic comment with one word as its value. -/
def isWordPragma (t : Text) : Bool :=
  wordPragmas.any fun key => (valueOf? key t).any isOneWord

/-- A symbol of an encoding's name. -/
def isEncodingSym (s : Sym) : Bool :=
  s.isWord || s = .char '.' || s = .char '-'

/-- What follows a colon or an equals sign, with white space before the sign passed over. -/
def afterAssignment? (t : Text) : Option Text :=
  match t.trimLeft with
  | s :: rest => if s = .char ':' ∨ s = .char '=' then some rest else none
  | [] => none

/-- A magic comment that declares the encoding. -/
def isEncodingPragma (t : Text) : Bool :=
  [Text.ofString "coding", Text.ofString "encoding"].any fun key =>
    ((Text.after? key t).bind afterAssignment?).any fun rest =>
      let value := rest.trimLeft
      value.head?.any isEncodingSym && Text.isBlank (value.dropWhile isEncodingSym)

/-- Does `p` accept what is left of the line at some place of it?  At each place `p` also learns
whether the symbol before it belongs to a word. -/
def somewhere (p : (inWord : Bool) → Text → Bool) : (inWord : Bool) → Text → Bool
  | inWord, [] => p inWord []
  | inWord, s :: t =>
      p inWord (s :: t) || (s ≠ .lineFeed && somewhere p s.isWord t)

/-- An editor's declaration of the encoding between two `-*-`, given what follows the sign. -/
def isEditorPragma (t : Text) : Bool :=
  let mark : Text := "-*-"
  somewhere (fun _ t => (Text.after? mark t).any fun t =>
    somewhere (fun inWord t => !inWord && (Text.after? "coding" t).any fun t =>
      (afterAssignment? t).any fun t =>
        somewhere (fun _ t => t.startsWith mark) false t) false t) false t

/-- A mark for the coverage tool. -/
def isCoverageMark (t : Text) : Bool :=
  t.startsWith ":nocov:"

/-- The symbols that are the letter `c` when case does not matter: the two cases, and for `s` and
`i` the long s and the two letters that differ in the dot. -/
def isLetter (c : Char) (s : Sym) : Bool :=
  s.satisfies fun d =>
    d.toLower == c || (c == 's' && d == 'ſ') || (c == 'i' && (d == 'İ' || d == 'ı'))

/-- What follows `word` in `t`, case not mattering; `word` is in small letters. -/
def afterAnyCase? : (word : List Char) → Text → Option Text
  | [], t => some t
  | _ :: _, [] => none
  | c :: word, s :: t => if isLetter c s then afterAnyCase? word t else none

/-- A line for the coverage tool, by its name. -/
def isCoverageSwitch (t : Text) : Bool :=
  (afterAnyCase? "simplecov".toList t).any Text.endsWord

/-- A word between two colons, such as the switches of documentation tools. -/
def isColonSwitch (t : Text) : Bool :=
  match t with
  | colon :: first :: rest =>
      colon = .char ':' && first.isLetter &&
        (rest.dropWhile fun s => s.isWord || s = .char '-').head? = some (.char ':')
  | _ => false

/-- Does a comment that begins with `t` speak to a tool? -/
def isToolSpeech (t : Text) : Bool :=
  isLinterSwitch t || isEncodingPragma t || isWordPragma t || isCoverageMark t ||
    isCoverageSwitch t || isColonSwitch t

/-- Is the line a directive to a tool? -/
def isDirective (line : Text) : Bool :=
  (content? line).any isToolSpeech || (afterSign? line).any isEditorPragma

/-! ## Markers of documentation -/

/-- A heading: an id between two plus signs and an arrow. -/
def isHeading (t : Text) : Bool :=
  match t with
  | plus :: rest =>
      let id := rest.takeWhile (fun s => s ≠ .char '+' && s ≠ .lineFeed)
      plus = .char '+' && !id.isEmpty &&
        ((Text.after? "+" (rest.drop id.length)).any fun rest => rest.trimLeft.startsWith "->")
  | [] => false

/-- A tag: an at sign, perhaps an exclamation mark, and a name. -/
def isTag (t : Text) : Bool :=
  (Text.after? "@" t).any fun rest =>
    let name := (Text.after? "!" rest).getD rest
    name.head?.any Sym.isNameStart

/-- Does the line mark the comment it stands in as documentation? -/
def isMarker (line : Text) : Bool :=
  !isDirective line && (content? line).any fun said => isHeading said || isTag said

end RubyDoc.Comment
