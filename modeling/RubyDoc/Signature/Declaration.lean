import RubyDoc.Outline.Definition
import RubyDoc.Signature.DocType

/-!
# Declarations

One line of a signature file, without comment and surrounding white space, opens a block, closes
one, declares a method or an attribute, or says nothing that matters here.  Which of these it is
follows from the line alone; only the type of a method may go on in later lines.
-/

namespace RubyDoc.Signature

open Outline

/-- The kinds of blocks.  Members of an interface belong to no container. -/
inductive BlockKind where
  | class_ | module | interface
  deriving DecidableEq, Repr

namespace BlockKind

/-- All kinds. -/
def all : List BlockKind := [class_, module, interface]

/-- The keyword that opens a block. -/
def keyword : BlockKind → Text
  | class_ => "class"
  | module => "module"
  | interface => "interface"

end BlockKind

/-- A block that is open: its kind and the name as written. -/
structure Block where
  kind : BlockKind
  name : Text
  deriving DecidableEq, Repr

/-- What a line says. -/
inductive Declaration where
  /-- Opens a block, which the same line may close. -/
  | opening (block : Block) (closed : Bool)
  | closing
  /-- A method, for each of the scopes it exists in, and the beginning of its type. -/
  | method (scopes : List Scope) (name type : Text)
  | attribute (access : Access) (scope : Scope) (name type : Text)
  | other
  deriving DecidableEq, Repr

namespace Declaration

/-- What follows a keyword and the white space after it. -/
def afterKeyword? (keyword t : Text) : Option Text :=
  match Text.after? keyword t with
  | some (s :: rest) => if s.isBlank then some (Text.trimLeft rest) else none
  | _ => none

/-- The path at the beginning of a text, perhaps anchored. -/
def path? (t : Text) : Option Text :=
  if ((Text.after? "::" t).getD t).head?.any Sym.isNameStart then some (t.takeWhile isPathSym)
  else none

/-- Does a line end with a separate `end`? -/
def endsBlock (t : Text) : Bool :=
  match t.reverse with
  | d :: n :: e :: s :: _ => [e, n, d] = Text.ofString "end" && s.isBlank
  | _ => false

/-- Reads a line that opens a block. -/
def opening? (t : Text) : Option Declaration :=
  BlockKind.all.findSome? fun kind => do
    let name ← path? (← afterKeyword? kind.keyword t)
    return .opening ⟨kind, name⟩ (endsBlock t)

/-- Reads a line that closes a block. -/
def closing? (t : Text) : Option Declaration :=
  match Text.after? "end" t with
  | some rest => if Text.endsWord rest then some .closing else none
  | none => none

/-- Cuts a name, which has no white space, from what follows the colon after it.  Of several colons
the first that leaves a name counts. -/
def nameAndType? : Text → Option (Text × Text)
  | [] => none
  | s :: t =>
      if s.isBlank then none
      else match Text.trimLeft t with
        | [] => none
        | colon :: type =>
            if colon = .char ':' then some ([s], Text.trimLeft type)
            else (nameAndType? t).map fun found => (s :: found.1, found.2)

/-- The receivers of a method and the scopes they stand for. -/
def receivers : List (Text × List Scope) :=
  [("self.", [.onClass]), ("self?.", [.onClass, .onInstance]), ("", [.onInstance])]

/-- Reads a line that declares a method. -/
def method? (t : Text) : Option Declaration := do
  let rest ← afterKeyword? "def" t
  receivers.findSome? fun (receiver, scopes) => do
    let (name, type) ← nameAndType? (← Text.after? receiver rest)
    return .method scopes name type

/-- The keywords of attributes and what these let one do. -/
def attributeKeywords : List (Text × Access) :=
  [("attr_reader", .read), ("attr_writer", .write), ("attr_accessor", .readWrite)]

/-- Cuts the name of an attribute, which may end in a question or exclamation mark. -/
def attributeName (t : Text) : Text × Text :=
  let name := t.takeWhile Sym.isWord
  match t.dropWhile Sym.isWord with
  | [] => (name, [])
  | s :: rest => if s = .char '?' || s = .char '!' then (name ++ [s], rest) else (name, s :: rest)

/-- What follows a pair of parentheses, which name the variable behind an attribute. -/
def afterVariable? (t : Text) : Option Text :=
  match Text.after? "(" t with
  | none => some t
  | some rest =>
      (Text.after? ")" (rest.dropWhile (· ≠ .char ')'))).map Text.trimLeft

/-- Reads a line that declares an attribute. -/
def attribute? (t : Text) : Option Declaration :=
  attributeKeywords.findSome? fun (keyword, access) => do
    let rest ← afterKeyword? keyword t
    let onClass := Text.after? "self." rest
    let (name, rest) := attributeName (onClass.getD rest)
    let type := Text.trimLeft (← Text.after? ":" (← afterVariable? (Text.trimLeft rest)))
    if name.head?.any Sym.isWord && !type.isEmpty then
      return .attribute access (if onClass.isSome then .onClass else .onInstance) name type
    else none

/-- Reads a line. -/
def ofLine (t : Text) : Declaration :=
  (opening? t <|> closing? t <|> method? t <|> attribute? t).getD .other

end Declaration

end RubyDoc.Signature
