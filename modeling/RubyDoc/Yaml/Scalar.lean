import RubyDoc.Double
import RubyDoc.Pattern.Regex.Reader
import RubyDoc.Value
import RubyDoc.Yaml.Cursor

/-!
# Forms and values of scalars

The form of a plain scalar makes it null, a switch, a number or a date; all other scalars are texts.
The first symbol decides which forms come into question.  A tag may ask for a type whose form the
scalar does not have, and then there may be no value.
-/

namespace RubyDoc.Yaml

open Pattern

/-- Why there is no value. -/
inductive Trouble where
  /-- The text is no document of the supported kind. -/
  | malformed
  /-- A scalar is tagged as something that it does not spell. -/
  | noSuchValue
  deriving DecidableEq, Repr

/-- The forms of plain scalars. -/
inductive Form where
  | bool | float | int
  /-- The key under which other mappings are merged in. -/
  | merge
  | null | timestamp
  /-- The key of a default value. -/
  | value
  | text
  deriving DecidableEq, Repr

namespace Form

/-- A form: the symbols it can begin with, and its expression. -/
structure Shape where
  form : Form
  first : String
  expression : Regex

/-- The expression that a text denotes. -/
def expression (t : String) : Regex :=
  (Regex.ofText? (Text.ofString t)).getD .empty

/-- The forms in the order in which they are tried. -/
def shapes : List Shape := [
  ⟨bool, "yYnNtTfFoO",
    expression "^(?:yes|Yes|YES|no|No|NO|true|True|TRUE|false|False|FALSE|on|On|ON|off|Off|OFF)$"⟩,
  ⟨float, "-+0123456789.", expression (
    "^(?:[-+]?(?:[0-9][0-9_]*)\\.[0-9_]*(?:[eE][-+][0-9]+)?|\\.[0-9][0-9_]*(?:[eE][-+][0-9]+)?" ++
    "|[-+]?[0-9][0-9_]*(?::[0-5]?[0-9])+\\.[0-9_]*|[-+]?\\.(?:inf|Inf|INF)" ++
    "|\\.(?:nan|NaN|NAN))$")⟩,
  ⟨int, "-+0123456789", expression (
    "^(?:[-+]?0b[0-1_]+|[-+]?0[0-7_]+|[-+]?(?:0|[1-9][0-9_]*)|[-+]?0x[0-9a-fA-F_]+" ++
    "|[-+]?[1-9][0-9_]*(?::[0-5]?[0-9])+)$")⟩,
  ⟨merge, "<", expression "^(?:<<)$"⟩,
  ⟨null, "~nN", expression "^(?:~|null|Null|NULL)$"⟩,
  ⟨timestamp, "0123456789", expression (
    "^(?:[0-9][0-9][0-9][0-9]-[0-9][0-9]-[0-9][0-9]|[0-9][0-9][0-9][0-9]-[0-9][0-9]?-[0-9][0-9]?" ++
    "(?:[Tt]|[ \\t]+)[0-9][0-9]?:[0-9][0-9]:[0-9][0-9](?:\\.[0-9]*)?" ++
    "(?:[ \\t]*(?:Z|[-+][0-9][0-9]?(?::[0-9][0-9])?))?)$")⟩,
  ⟨value, "=", expression "^(?:=)$"⟩]

/-- The form of a plain scalar. -/
def ofText (t : Text) : Form :=
  match t with
  | [] => null
  | s :: _ =>
      ((shapes.find? fun shape => isOneOf shape.first s && shape.expression.startsMatch t).map
        Shape.form).getD text

end Form

/-! ## Numbers -/

/-- The value of a digit up to a base. -/
def digitValue? (base : Nat) (s : Sym) : Option Nat :=
  (match s with
    | .char c =>
        if c.isDigit then some (c.toNat - '0'.toNat)
        else if c.isLower then some (c.toNat - 'a'.toNat + 10)
        else if c.isUpper then some (c.toNat - 'A'.toNat + 10)
        else none
    | .byte _ => none).filter (· < base)

/-- The number that digits spell; there must be some. -/
def natOf? (base : Nat) (digits : Text) : Option Nat :=
  if digits.isEmpty then none
  else digits.foldlM (fun n s => (digitValue? base s).map (base * n + ·)) 0

/-- The sign of a number and what follows it. -/
def signed (t : Text) : Bool × Text :=
  match t with
  | s :: rest =>
      if s = .char '-' then (true, rest) else if s = .char '+' then (false, rest) else (false, t)
  | [] => (false, [])

/-- A number with a sign. -/
def withSign (negative : Bool) (n : Nat) : Int :=
  if negative then -(n : Int) else n

/-- The number that parts between colons spell, each worth sixty times the next. -/
def sexagesimal? (t : Text) : Option Nat :=
  (Text.splitOn (.char ':') t).foldlM (fun n part => (natOf? 10 part).map (60 * n + ·)) 0

/-- The value of an integer.  Underscores do not count. -/
def intValue? (t : Text) : Option Int :=
  let (negative, digits) := signed (t.filter (· ≠ Sym.char '_'))
  (match Text.after? "0b" digits, Text.after? "0x" digits with
    | some rest, _ => natOf? 2 rest
    | _, some rest => natOf? 16 rest
    | _, _ =>
        if digits.head? = some (Sym.char '0') then natOf? 8 digits
        else if Sym.char ':' ∈ digits then sexagesimal? digits
        else natOf? 10 digits).map (withSign negative)

/-- The digits of a decimal number and the power of ten they are multiplied by. -/
def decimalParts? (t : Text) : Option (Nat × Int) := do
  let isDecimal := fun s : Sym => s.satisfies Char.isDigit
  let whole := t.takeWhile isDecimal
  let rest := t.drop whole.length
  let after := Text.after? "." rest
  let fraction := (after.getD []).takeWhile isDecimal
  let rest := (after.map (·.drop fraction.length)).getD rest
  let exponent ← match rest with
    | [] => some 0
    | s :: rest =>
        if s = .char 'e' then do
          let (negative, digits) := signed rest
          some (withSign negative (← natOf? 10 digits))
        else none
  let digits ← natOf? 10 (whole ++ fraction)
  some (digits, exponent - fraction.length)

/-- The whole number that parts between colons make up, if they do; the last part is decimal. -/
def sexagesimalDecimal? (t : Text) : Option (Nat × Int) := do
  let parts := Text.splitOn (.char ':') t
  let (digits, exponent) ← decimalParts? (parts.getLast?.getD [])
  let whole ← parts.dropLast.foldlM (fun n part => (natOf? 10 part).map (60 * n + ·)) 0
  if exponent ≤ 0 then some (whole * 60 * Nat.pow 10 (-exponent).toNat + digits, exponent) else none

/-- The value of a number with a point. -/
def floatValue? (t : Text) : Option Value :=
  let (negative, t) := signed ((t.filter (· ≠ Sym.char '_')).map Sym.smallAscii)
  if t = Text.ofString ".inf" ∨ t = Text.ofString ".nan" then some (.float none)
  else
    (if Sym.char ':' ∈ t then sexagesimalDecimal? t else decimalParts? t).map
      fun (digits, exponent) =>
        .float ((Double.wholeDecimal? digits exponent).map (withSign negative))

/-! ## Dates -/

/-- The number of days of a month. -/
def daysIn (year month : Nat) : Nat :=
  if month = 2 then
    if year % 4 = 0 ∧ (year % 100 ≠ 0 ∨ year % 400 = 0) then 29 else 28
  else if month = 4 ∨ month = 6 ∨ month = 9 ∨ month = 11 then 30
  else 31

/-- The numbers that a text spells between other symbols. -/
def numbersIn : (current : Option Nat) → Text → List Nat
  | current, [] => current.toList
  | current, s :: rest =>
      match digitValue? 10 s with
      | some d => numbersIn (some (10 * current.getD 0 + d)) rest
      | none => current.toList ++ numbersIn none rest

/-- Is there such a day? -/
def isDay (year month day : Nat) : Bool :=
  1 ≤ year && 1 ≤ month && month ≤ 12 && 1 ≤ day && day ≤ daysIn year month

/-- The part of a timestamp before its fraction and its time zone. -/
def clockPart (t : Text) : Text :=
  t.take 10 ++ (t.drop 10).takeWhile fun s => !isOneOf ".Z+-" s

/-- The distance from the common time in a timestamp, in minutes. -/
def zoneMinutes (t : Text) : Nat :=
  let zone := (t.drop 10).dropWhile fun s => !isOneOf "+-" s
  match numbersIn none zone with
  | [hours] => 60 * hours
  | hours :: minutes :: _ => 60 * hours + minutes
  | [] => 0

/-- The value of a timestamp: a day, or a point in time. -/
def timestampValue? (t : Text) : Option Value :=
  match numbersIn none (clockPart t) with
  | [year, month, day] => if isDay year month day then some (.other "date") else none
  | [year, month, day, hour, minute, second] =>
      if isDay year month day && hour < 24 && minute < 60 && second < 60 &&
          zoneMinutes t < 24 * 60 then some (.other "datetime")
      else none
  | _ => none

/-! ## Values -/

/-- The words of switches. -/
def switches : List (Text × Bool) :=
  [("yes", true), ("no", false), ("true", true), ("false", false), ("on", true), ("off", false)]

/-- Does a text spell bytes four symbols at a time, with padding at the end?  Other symbols do not
count. -/
def spellsBytes : (place padding : Nat) → Text → Bool
  | place, _, [] => place = 0
  | place, padding, s :: rest =>
      if s = .char '=' then
        (2 ≤ place && 4 ≤ place + padding + 1) || spellsBytes place (padding + 1) rest
      else if s.satisfies fun c => c.isAlphanum || c == '+' || c == '/' then
        spellsBytes ((place + 1) % 4) 0 rest
      else spellsBytes place padding rest

/-- The value of a scalar of a form; none if it does not spell one. -/
def Form.valueOf (form : Form) (t : Text) : Except Trouble Value :=
  match form with
  | text => .ok (.text t)
  | null => .ok .null
  | bool => ((switches.lookup (t.map Sym.smallAscii)).map Value.bool).elim (.error .noSuchValue) .ok
  | int => ((intValue? t).map Value.int).elim (.error .noSuchValue) .ok
  | float => (floatValue? t).elim (.error .noSuchValue) .ok
  | timestamp =>
      if ofText t = timestamp then (timestampValue? t).elim (.error .noSuchValue) .ok
      else .error .noSuchValue
  | merge | value => .error .malformed

end RubyDoc.Yaml
