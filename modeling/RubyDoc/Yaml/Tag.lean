import RubyDoc.Text.Utf8
import RubyDoc.Yaml.Quoted
import RubyDoc.Yaml.Token

/-!
# Tags, anchors and directives

The signs that name things: tags with a handle or in angle brackets, anchors and aliases, and the
directives before a document.  Names of tags may spell bytes by percent signs.
-/

namespace RubyDoc.Yaml

/-- A symbol of a tag's name, the percent sign apart. -/
def isUriSym (s : Sym) : Bool :=
  s.satisfies fun c => c.isAlphanum || "-;/?:@&=+$,_.!~*'()[]".toList.contains c

/-- The bytes that percent signs spell at the start of `t`, and the rest. -/
def percentBytes? : (fuel : Nat) → Text → Option (List UInt8 × Text)
  | 0, t => some ([], t)
  | fuel + 1, t =>
      match t with
      | s :: rest =>
          if s ≠ .char '%' then some ([], t)
          else if rest.length < 2 then none
          else do
            let n ← hexNumber? (rest.take 2)
            let (more, rest) ← percentBytes? fuel (rest.drop 2)
            some (UInt8.ofNat n :: more, rest)
      | [] => some ([], [])

/-- A part of a tag's name, perhaps empty, and the rest. -/
def uriFrom? : (fuel : Nat) → Text → Option (Text × Text)
  | 0, t => some ([], t)
  | fuel + 1, t =>
      match t with
      | [] => some ([], [])
      | s :: rest =>
          if isUriSym s then (uriFrom? fuel rest).map fun (more, rest) => (s :: more, rest)
          else if s = .char '%' then do
            let (bytes, rest) ← percentBytes? (t.length + 1) t
            let spelled := Utf8.decode bytes
            if spelled.any fun s => !s.satisfies fun _ => true then none
            else (uriFrom? fuel rest).map fun (more, rest) => (spelled ++ more, rest)
          else some ([], t)

/-- A tag's name and the rest; it is not empty. -/
def uri? (t : Text) : Option (Text × Text) :=
  (uriFrom? (t.length + 1) t).filter fun found => found.2.length < t.length

/-- A handle: an exclamation mark, or a word between two of them. -/
def handle? (t : Text) : Option (Text × Text) :=
  match t with
  | s :: rest =>
      if s ≠ .char '!' then none
      else if rest.head? = some (.char ' ') then some ([s], rest)
      else
        let word := rest.takeWhile isNameSym
        match rest.drop word.length with
        | e :: rest => if e = .char '!' then some (s :: word ++ [e], rest) else none
        | [] => none
  | [] => none

/-- The part of a tag up to which an exclamation mark belongs to a handle. -/
def hasHandle (t : Text) : Bool :=
  (t.takeWhile fun s => s ≠ .char ' ' && !isBreak s).contains (.char '!')

/-- The tag whose exclamation mark `t` begins with, and the rest. -/
def tag? (t : Text) : Option (Token × Text) := do
  let after := t.drop 1
  let (token, rest) ←
    if after.head? = some (.char '<') then do
      let (suffix, rest) ← uri? (after.drop 1)
      let rest ← Text.after? ">" rest
      some (Token.tag none suffix, rest)
    else if atGap after then some (Token.tag none "!", after)
    else do
      let (handle, rest) ←
        if hasHandle after then handle? t else some (Text.ofString "!", after)
      let (suffix, rest) ← uri? rest
      some (Token.tag (some handle) suffix, rest)
  if atSpaceOrLineEnd rest then some (token, rest) else none

/-- The name of an anchor or alias after its sign, and the rest. -/
def anchorName? (t : Text) : Option (Text × Text) :=
  let name := t.takeWhile isNameSym
  let rest := t.drop name.length
  if name.isEmpty then none
  else if atGap rest || rest.head?.any (isOneOf "?:,]\x7d%@\x60") then some (name, rest)
  else none

/-! ## Directives -/

/-- Decimal digits, at least one, and the rest. -/
def decimal? (t : Text) : Option (Text × Text) :=
  let digits := t.takeWhile fun s => s.satisfies Char.isDigit
  if digits.isEmpty then none else some (digits, t.drop digits.length)

/-- Passes over spaces. -/
def afterSpaces (t : Text) : Text :=
  t.dropWhile (· = .char ' ')

/-- The version that a directive names. -/
def version? (t : Text) : Option (Directive × Text) := do
  let (major, rest) ← decimal? (afterSpaces t)
  let (_, rest) ← decimal? (← Text.after? "." rest)
  if atSpaceOrLineEnd rest then some (.version major, rest) else none

/-- The handle and what it stands for. -/
def handleDirective? (t : Text) : Option (Directive × Text) := do
  let (handle, rest) ← handle? (afterSpaces t)
  if rest.head? ≠ some (.char ' ') then none
  else
    let (stem, rest) ← uri? (afterSpaces rest)
    if atSpaceOrLineEnd rest then some (.handle handle stem, rest) else none

/-- The directive whose percent sign was passed over, and the rest up to the end of the line. -/
def directive? (t : Text) : Option (Directive × Text) := do
  let name := t.takeWhile isNameSym
  let rest := t.drop name.length
  if name.isEmpty || !atSpaceOrLineEnd rest then none
  else
    let (d, rest) ←
      if name = Text.ofString "YAML" then version? rest
      else if name = Text.ofString "TAG" then handleDirective? rest
      else some (Directive.other, rest.dropWhile (!isBreak ·))
    let rest := afterSpaces rest
    let rest := if rest.head? = some (.char '#') then rest.dropWhile (!isBreak ·) else rest
    if atLineEnd rest then some (d, rest) else none

end RubyDoc.Yaml
