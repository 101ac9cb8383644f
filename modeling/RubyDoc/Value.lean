import RubyDoc.Text.Basic
import RubyDoc.Text.Quoted

/-!
# Data

What a data document holds: scalars, lists and mappings.  A mapping keeps its keys in the order of
their first appearance and has each key once.  Data without numbers other than whole ones can be
written as one line of text with sorted keys.
-/

namespace RubyDoc

/-- A value of a data document. -/
inductive Value where
  | null
  | bool (b : Bool)
  | int (i : Int)
  /-- A number written with a point or an exponent; `whole` is its value if it is a whole number. -/
  | float (whole : Option Int)
  | text (t : Text)
  | list (items : List Value)
  | mapping (entries : List (Value × Value))
  /-- A scalar or collection of the named type that nothing here looks into. -/
  | other (type : String)
  deriving Repr, Inhabited

namespace Value

/-- The value under a key of a mapping. -/
def get? (v : Value) (key : Text) : Option Value :=
  match v with
  | mapping entries =>
      (entries.find? fun entry => match entry.1 with
        | text t => t = key
        | _ => false).map Prod.snd
  | _ => none

/-- The name of a value's type. -/
def typeName : Value → Text
  | null => "NoneType"
  | bool _ => "bool"
  | int _ => "int"
  | float _ => "float"
  | text _ => "str"
  | list _ => "list"
  | mapping _ => "dict"
  | other type => type

/-- One symbol inside double quotes, in ASCII; what lies beyond is written as code units. -/
def jsonSym (s : Sym) : Text :=
  let unit (n : Nat) : Text := "\\u" ++ Text.hexDigits 4 n
  let n := s.code
  if n = 0x22 then "\\\""
  else if n = 0x5C then "\\\\"
  else if n = 0x0A then "\\n"
  else if n = 0x0D then "\\r"
  else if n = 0x09 then "\\t"
  else if n = 0x08 then "\\b"
  else if n = 0x0C then "\\f"
  else if 0x20 ≤ n && n < 0x7F then [s]
  else if n < 0x10000 then unit n
  else unit (0xD800 + (n - 0x10000) / 0x400) ++ unit (0xDC00 + (n - 0x10000) % 0x400)

/-- A text inside double quotes. -/
def jsonText (t : Text) : Text :=
  [Sym.char '"'] ++ t.flatMap jsonSym ++ [Sym.char '"']

/-- The key of an entry whose key is a text. -/
def keyText : Value → Text
  | text t => t
  | _ => []

/-- Puts a written entry where its key belongs. -/
def insertEntry (key : Text) (written : Text) : List (Text × Text) → List (Text × Text)
  | [] => [(key, written)]
  | (k, w) :: rest =>
      if Text.le key k then (key, written) :: (k, w) :: rest
      else (k, w) :: insertEntry key written rest

mutual

/-- A value in one line, the keys of mappings in the order of texts. -/
def toJson : Value → Text
  | null => "null"
  | bool b => if b then "true" else "false"
  | int i => if i < 0 then "-" ++ Text.ofNat i.natAbs else Text.ofNat i.natAbs
  | float whole => toString (whole.getD 0)
  | text t => jsonText t
  | list items => "[" ++ Text.join ", " (listJson items) ++ "]"
  | mapping entries =>
      "\x7b" ++ Text.join ", " ((entriesJson entries).map Prod.snd) ++ "\x7d"
  | other _ => "null"

/-- The items of a list, each in one line. -/
def listJson : List Value → List Text
  | [] => []
  | v :: vs => toJson v :: listJson vs

/-- The entries of a mapping, each in one line, sorted by their keys. -/
def entriesJson : List (Value × Value) → List (Text × Text)
  | [] => []
  | (k, v) :: rest =>
      insertEntry (keyText k) (jsonText (keyText k) ++ ": " ++ toJson v) (entriesJson rest)

end

end Value

end RubyDoc
