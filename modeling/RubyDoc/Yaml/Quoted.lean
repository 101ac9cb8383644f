import RubyDoc.Yaml.Cursor

/-!
# Quoted scalars

Between single quotes only a doubled quote is special; between double quotes a backslash begins an
escape.  In both, a line break with the white space around it counts as one space, and further
breaks as themselves.
-/

namespace RubyDoc.Yaml

/-- The line breaks that `t` begins with, spaces and tabs around them passed over, and the rest.
There must be no marker between documents at the start of a line. -/
def breaks? : (fuel : Nat) → Text → Option (Text × Text)
  | 0, t => some ([], t)
  | fuel + 1, t =>
      if atAnyMarker t then none
      else
        let t := t.dropWhile isSpace
        match lineBreak? t with
        | none => some ([], t)
        | some (s, rest) => (breaks? fuel rest).map fun (more, rest) => (s :: more, rest)

/-- What a line break followed by `more` breaks counts as. -/
def foldedBreak (s : Sym) (more : Text) : Text :=
  if s ≠ .lineFeed then s :: more
  else if more.isEmpty then " "
  else more

/-- The escapes of one letter. -/
def escapes : List (Char × Char) :=
  [('0', '\x00'), ('a', '\x07'), ('b', '\x08'), ('t', '\t'), ('\t', '\t'), ('n', '\n'),
    ('v', '\x0B'), ('f', '\x0C'), ('r', '\r'), ('e', '\x1B'), (' ', ' '), ('"', '"'),
    ('\\', '\\'), ('/', '/'), ('N', '\u0085'), ('_', '\u00A0'), ('L', '\u2028'),
    ('P', '\u2029')]

/-- The escapes by code and the number of their digits. -/
def codeEscapes : List (Char × Nat) :=
  [('x', 2), ('u', 4), ('U', 8)]

/-- The value of a hexadecimal digit. -/
def hexValue? (s : Sym) : Option Nat :=
  match s with
  | .char c =>
      if c.isDigit then some (c.toNat - '0'.toNat)
      else if 'a' ≤ c ∧ c ≤ 'f' then some (c.toNat - 'a'.toNat + 10)
      else if 'A' ≤ c ∧ c ≤ 'F' then some (c.toNat - 'A'.toNat + 10)
      else none
  | .byte _ => none

/-- The number that hexadecimal digits spell. -/
def hexNumber? (digits : Text) : Option Nat :=
  digits.foldlM (fun n s => (hexValue? s).map (16 * n + ·)) 0

/-- The symbol with a code.  The codes that stand for stray bytes are among them. -/
def symOfCode (n : Nat) : Sym :=
  if 0xDC80 ≤ n && n < 0xDD00 then .byte (UInt8.ofNat (n - 0xDC00)) else .char (Char.ofNat n)

/-- The value of the escape after a backslash, and the rest. -/
def escape? (t : Text) : Option (Text × Text) :=
  match t with
  | .char c :: rest =>
      match escapes.lookup c with
      | some d => some ([.char d], rest)
      | none =>
          match codeEscapes.lookup c with
          | some count =>
              if rest.length < count then none
              else (hexNumber? (rest.take count)).bind fun n =>
                if n < 0x110000 then some ([symOfCode n], rest.drop count) else none
          | none =>
              match lineBreak? t with
              | some (_, rest) => breaks? (rest.length + 1) rest
              | none => none
  | _ => none

/-- The rest of a scalar between double quotes, or single ones, and what follows it. -/
def quotedRest? (double : Bool) : (fuel : Nat) → Text → Option (Text × Text)
  | 0, _ => none
  | _, [] => none
  | fuel + 1, s :: t =>
      let quote : Sym := if double then .char '"' else .char '\''
      let more (found : Text) (rest : Text) : Option (Text × Text) :=
        (quotedRest? double fuel rest).map fun (later, rest) => (found ++ later, rest)
      if s = quote then
        if !double && t.head? = some quote then more [s] t.tail else some ([], t)
      else if double && s = .char '\\' then
        match escape? t with
        | some (found, rest) => more found rest
        | none => none
      else if isSpace s || isBreak s then
        let spaces := (s :: t).takeWhile isSpace
        let rest := (s :: t).dropWhile isSpace
        match lineBreak? rest with
        | none => more spaces rest
        | some (b, rest) =>
            match breaks? (rest.length + 1) rest with
            | some (later, rest) => more (foldedBreak b later) rest
            | none => none
      else more [s] t

/-- The scalar whose opening quote `t` begins with, and what follows it. -/
def quoted? (t : Text) : Option (Text × Text) :=
  match t with
  | s :: rest => quotedRest? (s = .char '"') (rest.length + 1) rest
  | [] => none

end RubyDoc.Yaml
