import RubyDoc.Pattern.Regex

/-!
# The notation of regular expressions, token by token

The tokens of the written form and how they are read off a text.  Reading fails where the notation
is broken within one token: an unfinished set, an escape without meaning, an interval upside down.
It also fails on what other dialects have besides: looking behind, references to groups and
conditions on them, names of characters, classes of ASCII symbols only, remarks between tokens, and
groups and repetitions that never give back what they took.
-/

namespace RubyDoc.Pattern.Regex

/-- Switches that change what the rest of an expression means. -/
structure Switches where
  anyCase : Bool := false
  dotAll : Bool := false
  multiline : Bool := false
  deriving DecidableEq, Repr

/-- What an opening parenthesis begins. -/
inductive Opening where
  | plain
  | named (name : Text)
  | switched (on off : List Char)
  | ahead (negated : Bool)
  deriving DecidableEq, Repr

/-- A token of the notation. -/
inductive Token where
  | set (s : SymSet)
  | dot | caret | dollar
  | anchor (a : Anchor)
  | times (least : Nat) (most : Option Nat)
  | opening (o : Opening)
  | switches (on : List Char)
  | closing | bar | remark
  deriving DecidableEq, Repr

namespace Token

/-- The value of a digit, to a base up to sixteen. -/
def digitValue? (base : Nat) (s : Sym) : Option Nat :=
  match s with
  | .byte _ => none
  | .char c =>
      let n := c.toNat
      let value :=
        if c.isDigit then n - 0x30
        else if 'a' ≤ c ∧ c ≤ 'f' then n - 0x61 + 10
        else if 'A' ≤ c ∧ c ≤ 'F' then n - 0x41 + 10
        else 16
      if value < base then some value else none

/-- Reads at most `limit` digits: their number, their value, and what follows. -/
def digits (base : Nat) : (limit : Nat) → Text → Nat × Nat × Text
  | 0, t => (0, 0, t)
  | limit + 1, t => go limit 0 0 t
where
  go : Nat → Nat → Nat → Text → Nat × Nat × Text
    | _, count, value, [] => (count, value, [])
    | left, count, value, s :: t =>
        match digitValue? base s with
        | none => (count, value, s :: t)
        | some d =>
            match left with
            | 0 => (count + 1, value * base + d, t)
            | left + 1 => go left (count + 1) (value * base + d) t

/-- The class of one code point. -/
def single (n : Nat) : SymClass :=
  .interval n n

/-- Exactly `count` hexadecimal digits that name a code point. -/
def hexClass? (count : Nat) (t : Text) : Option (SymClass × Text) :=
  let (found, value, rest) := digits 16 count t
  if found = count ∧ value < 0x110000 then some (single value, rest) else none

/-- The escapes that mean the same inside and outside sets. -/
def commonEscape? (c : Char) (t : Text) : Option (SymClass × Text) :=
  match c with
  | 'd' => some (.digit, t)
  | 'D' => some (.notDigit, t)
  | 's' => some (.blank, t)
  | 'S' => some (.notBlank, t)
  | 'w' => some (.word, t)
  | 'W' => some (.notWord, t)
  | 'a' => some (single 7, t)
  | 'f' => some (single 12, t)
  | 'n' => some (single 10, t)
  | 'r' => some (single 13, t)
  | 't' => some (single 9, t)
  | 'v' => some (single 11, t)
  | 'x' => hexClass? 2 t
  | 'u' => hexClass? 4 t
  | 'U' => hexClass? 8 t
  | _ => if c.isAlphanum then none else some (single c.toNat, t)

/-- Up to three octal digits, the first of which is given. -/
def octal? (first : Char) (more : Nat) (t : Text) : Option (SymClass × Text) :=
  match digitValue? 8 (.char first) with
  | none => none
  | some d =>
      let (found, value, rest) := digits 8 more t
      let code := d <<< (3 * found) + value
      if code ≤ 0o377 then some (single code, rest) else none

/-- An escape inside a set, after its backslash. -/
def setEscape? : Text → Option (SymClass × Text)
  | [] => none
  | .byte b :: t => some (single (Sym.byte b).code, t)
  | .char c :: t =>
      if c = 'b' then some (single 8, t)
      else if c.isDigit then octal? c 2 t
      else commonEscape? c t

/-- An escape outside sets, after its backslash.  References to groups are not in the notation. -/
def escape? : Text → Option (Token × Text)
  | [] => none
  | .byte b :: t => some (.set (.only (.byte b)), t)
  | .char c :: t =>
      match c with
      | 'A' => some (.anchor .textStart, t)
      | 'Z' => some (.anchor .textEnd, t)
      | 'b' => some (.anchor .wordBoundary, t)
      | 'B' => some (.anchor .noWordBoundary, t)
      | _ =>
          let found :=
            if c = '0' then octal? c 2 t
            else if c.isDigit then
              if (digits 8 2 t).1 = 2 then octal? c 2 t else none
            else commonEscape? c t
          found.map fun (cls, rest) => (.set { classes := [cls] }, rest)

/-- One member of a set: an escape or the symbol itself. -/
def setMember? : Text → Option (SymClass × Text)
  | [] => none
  | s :: t => if s = .char '\\' then setEscape? t else some (single s.code, t)

/-- The members of a set up to its closing bracket; a bracket that comes first is a member. -/
def setMembers? : (fuel : Nat) → (found : List SymClass) → Text → Option (List SymClass × Text)
  | 0, _, _ => none
  | fuel + 1, found, t =>
      match t with
      | [] => none
      | s :: rest =>
          if s = .char ']' ∧ found ≠ [] then some (found.reverse, rest)
          else do
            let (low, rest) ← setMember? (s :: rest)
            match rest with
            | dash :: next :: after =>
                if dash ≠ .char '-' then setMembers? fuel (low :: found) rest
                else if next = .char ']' then
                  some ((single '-'.toNat :: low :: found).reverse, after)
                else
                  let (high, rest) ← setMember? (next :: after)
                  match low, high with
                  | .interval a _, .interval b _ =>
                      if a ≤ b then setMembers? fuel (.interval a b :: found) rest else none
                  | _, _ => none
            | _ => setMembers? fuel (low :: found) rest

/-- A set, after its opening bracket. -/
def set? (t : Text) : Option (SymSet × Text) :=
  let negated : Bool := t.head? = some (.char '^')
  let members := if negated then t.drop 1 else t
  (setMembers? (t.length + 1) [] members).map fun (classes, rest) => ({ negated, classes }, rest)

/-- The bounds of a repetition in braces, after the opening one; none if the brace is literal. -/
def bounds? (t : Text) : Option (Nat × Option Nat × Text) :=
  if t.head? = some (.char '\x7d') then none
  else
    let (foundLow, low, rest) := digits 10 t.length t
    match rest with
    | s :: rest =>
        if s = .char ',' then
          let (foundHigh, high, rest) := digits 10 rest.length rest
          match rest with
          | s :: rest =>
              if s = .char '\x7d' then some (low, if foundHigh = 0 then none else some high, rest)
              else none
          | [] => none
        else if s = .char '\x7d' ∧ foundLow ≠ 0 then some (low, some low, rest)
        else none
    | [] => none

/-- A question mark after a repetition makes it take as little as it can.  That does not matter
here. -/
def passEagerness (t : Text) : Text :=
  match t with
  | s :: rest => if s = .char '?' then rest else t
  | [] => []

/-- Is the text a name?  Names of groups are plain words. -/
def isName (t : Text) : Bool :=
  let isLetter (s : Sym) := s.satisfies fun c => c.isAlpha || c == '_'
  t.head?.any isLetter && t.all fun s => isLetter s || s.satisfies Char.isDigit

/-- The letters that switch something, read as long as they last. -/
def switchLetters (t : Text) : List Char × Text :=
  let isLetter (s : Sym) := s.satisfies fun c => "imsu".toList.contains c
  let letter? (s : Sym) : Option Char := match s with
    | .char c => some c
    | .byte _ => none
  ((t.takeWhile isLetter).filterMap letter?, t.dropWhile isLetter)

/-- Switches after `(?`: for the whole expression, or for a group of their own. -/
def switching? (t : Text) : Option (Token × Text) :=
  let (on, rest) := switchLetters t
  match rest with
  | s :: rest =>
      if s = .char ')' ∧ on ≠ [] then some (.switches on, rest)
      else if s = .char ':' ∧ on ≠ [] then some (.opening (.switched on []), rest)
      else if s = .char '-' then
        let (off, rest) := switchLetters rest
        match rest with
        | s :: rest =>
            if s = .char ':' ∧ off ≠ [] ∧ on.all (!off.contains ·) ∧
                off.all ("ims".toList.contains ·) then
              some (.opening (.switched on off), rest)
            else none
        | [] => none
      else none
  | [] => none

/-- What a question mark after an opening parenthesis begins. -/
def extension? : Text → Option (Token × Text)
  | [] => none
  | s :: t =>
      if s = .char ':' then some (.opening .plain, t)
      else if s = .char '=' then some (.opening (.ahead false), t)
      else if s = .char '!' then some (.opening (.ahead true), t)
      else if s = .char '#' then
        let rest := t.dropWhile (· ≠ .char ')')
        if rest.isEmpty then none else some (.remark, rest.drop 1)
      else if s = .char 'P' then
        match t with
        | s :: t =>
            let name := t.takeWhile (· ≠ .char '>')
            let rest := t.drop name.length
            if s = .char '<' ∧ rest ≠ [] ∧ isName name then
              some (.opening (.named name), rest.drop 1)
            else none
        | [] => none
      else switching? (s :: t)

/-- The first token of a text that is not empty, and what follows it. -/
def read? (s : Sym) (t : Text) : Option (Token × Text) :=
  match s with
  | .byte b => some (.set (.only (.byte b)), t)
  | .char c =>
      match c with
      | '\\' => escape? t
      | '.' => some (.dot, t)
      | '^' => some (.caret, t)
      | '$' => some (.dollar, t)
      | '|' => some (.bar, t)
      | ')' => some (.closing, t)
      | '(' =>
          match t with
          | q :: rest => if q = .char '?' then extension? rest else some (.opening .plain, t)
          | [] => some (.opening .plain, t)
      | '[' => (set? t).map fun (members, rest) => (.set members, rest)
      | '*' => some (.times 0 none, passEagerness t)
      | '+' => some (.times 1 none, passEagerness t)
      | '?' => some (.times 0 (some 1), passEagerness t)
      | '\x7b' =>
          match bounds? t with
          | some (low, high, rest) => some (.times low high, passEagerness rest)
          | none => some (.set (.only s), t)
      | _ => some (.set (.only s), t)

/-- The tokens of a text.  Each token takes at least one symbol, so `fuel` is its length. -/
def readAll? : (fuel : Nat) → Text → Option (List Token)
  | _, [] => some []
  | 0, _ :: _ => none
  | fuel + 1, s :: t => do
      let (token, rest) ← read? s t
      let tokens ← readAll? fuel rest
      some (token :: tokens)

end Token

end RubyDoc.Pattern.Regex
