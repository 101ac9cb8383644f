import RubyDoc.Signature.Basic
import RubyDoc.Signature.DocType

/-!
# Method types

A method type is made of type parameters, parameters, a block and a result, all but the result
optional: `[T] (Integer id, ?verbose: bool) ?{ (T) -> void } -> User?`.  Further overloads may
follow after a bar; only the first one is read.  What cannot be read as one of these parts is
passed over, so every text has a signature.
-/

namespace RubyDoc.Signature

/-- Does a text, white space apart, begin as an overload does? -/
def opensOverload (t : Text) : Bool :=
  let t := t.trimLeft
  t.startsWith "(" || t.startsWith "["

/-- The beginning of a method type up to the bar that starts a second overload.  The bar follows an
arrow, both outside brackets. -/
def overloadFrom (depth : Int) (arrow : Bool) : Text → Text
  | [] => []
  | s :: t =>
      if depth = 0 ∧ arrow ∧ s = .char '|' ∧ opensOverload t then []
      else
        let arrow := arrow || (depth == 0 && s = .char '-' && t.head? = some (.char '>'))
        s :: overloadFrom (depth + bracketStep s) arrow t

/-- The first overload of a method type. -/
def firstOverload (t : Text) : Text :=
  (overloadFrom 0 false t).trim

/-- Cuts a text that begins with `opening` behind the bracket that closes it: what the two enclose
and what follows. -/
def enclosed? (opening : Text) (t : Text) : Option (Text × Text) :=
  if t.startsWith opening then
    (closing? t).map fun k => ((t.take k).tail, Text.trim (t.drop (k + 1)))
  else none

/-- A positional parameter in the notation of a method type: a type, perhaps followed by a name. -/
structure Positional where
  type : Text
  name : Option Text
  deriving DecidableEq, Repr

/-- A name of a positional parameter: small ASCII letter or underscore, then word symbols. -/
def isParameterName (t : Text) : Bool :=
  match t with
  | [] => false
  | s :: rest => s.satisfies (fun c => c.isLower || c == '_') && rest.all Sym.isWord

/-- The endings of a type that needs a further operand. -/
def danglingEndings : List Text :=
  ["|", "&", ",", "->", "(", "[", "\x7b", "^"]

/-- Reads a positional parameter.  Its last word is a name if it looks like one and the words
before it are a complete type. -/
def Positional.ofText (t : Text) : Positional :=
  let t := t.trim
  let isInWord := fun s : Sym => !s.isBlank
  let name := (t.reverse.takeWhile isInWord).reverse
  let type := Text.trimRight (t.reverse.dropWhile isInWord).reverse
  if !type.isEmpty && isParameterName name && !danglingEndings.any type.endsWith then
    ⟨type, some name⟩
  else ⟨t, none⟩

/-- Reads a keyword parameter: a name and its type.  A question mark before it makes it optional. -/
def keyword? (t : Text) : Option (Text × Text) :=
  let t := (Text.after? "?" t).getD t
  match t.takeWhile Sym.isWord, t.dropWhile Sym.isWord with
  | s :: name, colon :: rest =>
      let type := Text.trimLeft rest
      if s.isNameStart ∧ colon = .char ':' ∧ rest.head? ≠ some (.char ':') ∧ type ≠ [] ∧
          .lineFeed ∉ type then
        some (s :: name, type)
      else none
  | _, _ => none

/-- Sets the type of a named parameter.  A name that is set again keeps its place. -/
def setType (name type : Text) : List (Text × Text) → List (Text × Text)
  | [] => [(name, type)]
  | (n, t) :: rest => if n = name then (n, type) :: rest else (n, t) :: setType name type rest

/-- Adds the types of one parameter to a signature. -/
def addParameter (docType : Text → Text) (sig : Signature) (t : Text) : Signature :=
  if t.isEmpty then sig
  else match Text.after? "**" t with
  | some rest => { sig with restValue := some (docType (Positional.ofText rest).type) }
  | none =>
      match Text.after? "*" t with
      | some rest => { sig with restElement := some (docType (Positional.ofText rest).type) }
      | none =>
          match keyword? t with
          | some (name, type) =>
              { sig with paramTypes := setType name (docType type) sig.paramTypes }
          | none =>
              let positional := Positional.ofText ((Text.after? "?" t).getD t)
              match positional.name with
              | some name =>
                  { sig with
                    paramTypes := setType name (docType positional.type) sig.paramTypes }
              | none => sig

/-- What follows the type parameters of a method type. -/
def afterTypeParameters (t : Text) : Text :=
  ((enclosed? "[" t).map Prod.snd).getD t

/-- The parameters of a method type and what follows them. -/
def parameterList (t : Text) : Text × Text :=
  (enclosed? "(" t).getD ([], t)

/-- What follows the block of a method type. -/
def afterBlock (t : Text) : Text :=
  let t := ((Text.after? "?" t).map Text.trim).getD t
  if t.startsWith "\x7b" then ((enclosed? "\x7b" t).map Prod.snd).getD [] else t

/-- The declared type of the result; without an arrow there is none. -/
def resultType (t : Text) : Text :=
  ((Text.after? "->" t).map Text.trim).getD []

/-- The signature of a method type. -/
def ofMethodType (collapse : Bool) (t : Text) : Signature :=
  let (params, rest) := parameterList (afterTypeParameters (firstOverload t))
  (parts (.char ',') params).foldl (addParameter (docType collapse))
    { returnType := docType collapse (resultType (afterBlock rest)) }

end RubyDoc.Signature
