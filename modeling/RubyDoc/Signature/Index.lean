import RubyDoc.Text.Lines
import RubyDoc.Signature.Declaration
import RubyDoc.Signature.Lookup
import RubyDoc.Signature.MethodType

/-!
# The index of signature files

The declarations of signature files are collected under container, scope and name.  The first
declaration of a member wins, within one file and across files.  The reader keeps the blocks that
are open and the method whose type may still go on, and takes the text line by line.
-/

namespace RubyDoc.Signature

open Outline

/-- Signatures under their keys, in the order of their declaration. -/
abbrev Index := List (Key × Signature)

namespace Index

/-- Adds a signature, unless there is one under its key. -/
def add (index : Index) (key : Key) (sig : Signature) : Index :=
  if (index.lookup key).isSome then index else index ++ [(key, sig)]

/-- The container of members outside all blocks. -/
def topContainer : Text := "Object"

/-- The container that a member asked for is looked up in: unanchored, and never empty. -/
def indexedContainer (container : Text) : Text :=
  let path := (Text.after? "::" container).getD container
  if path.isEmpty then topContainer else path

/-- The signature of a member. -/
def find? (index : Index) (key : Key) : Option Signature :=
  index.lookup { key with container := indexedContainer key.container }

/-- The index as a source of signatures, read from a number of files. -/
def provider (index : Index) (files : Nat) : Provider where
  answer := fun _ key => .ok (match index.find? key with
    | some sig => .found sig
    | none => .nothing)
  notice := some ("Indexed " ++ Text.ofNat index.length ++ " RBS signature(s) from " ++
    Text.ofNat files ++ " file(s)")

end Index

/-- A method whose type may go on in the next line. -/
structure OpenMethod where
  scopes : List Scope
  name : Text
  type : Text
  deriving DecidableEq, Repr

namespace OpenMethod

/-- Does the type go on in a line?  It does if there is none yet, if a bracket is open, or if the
line begins a further overload. -/
def goesOn (m : OpenMethod) (line : Text) : Bool :=
  m.type.isEmpty || 0 < bracketDepth m.type || line.startsWith "|"

/-- Goes on with a line. -/
def extend (m : OpenMethod) (line : Text) : OpenMethod :=
  { m with type := m.type ++ " " ++ line }

end OpenMethod

/-- Where the reading of a file stands. -/
structure Reader where
  index : Index
  /-- The blocks that are open, the innermost first. -/
  blocks : List Block := []
  method : Option OpenMethod := none

namespace Reader

/-- The path of a block within the path around it. -/
def enterPath (path name : Text) : Text :=
  match Text.after? "::" name with
  | some rest => rest
  | none => if path.isEmpty then name else path ++ "::" ++ name

/-- The container that open blocks make up, the outermost block first. -/
def containerOf (names : List Text) : Text :=
  let path := names.foldl enterPath []
  if path.isEmpty then Index.topContainer else path

/-- The container that members belong to. -/
def container (r : Reader) : Text :=
  containerOf (r.blocks.reverse.map Block.name)

/-- Are the members here those of an interface? -/
def inInterface (r : Reader) : Bool :=
  r.blocks.head?.any fun b => b.kind = .interface

/-- Indexes a member of the open container. -/
def addMember (r : Reader) (scope : Scope) (name : Text) (sig : Signature) : Reader :=
  { r with index := r.index.add ⟨r.container, scope, name⟩ sig }

/-- Indexes the method whose type is now complete. -/
def closeMethod (collapse : Bool) (r : Reader) : Reader :=
  match r.method with
  | none => r
  | some m =>
      m.scopes.foldl (fun r scope => r.addMember scope m.name (ofMethodType collapse m.type))
        { r with method := none }

/-- Indexes an attribute: its reader, its writer or both. -/
def addAttribute (r : Reader) (access : Access) (scope : Scope) (name type : Text) : Reader :=
  let r := if access.reads then r.addMember scope name { returnType := type } else r
  if access.writes then
    r.addMember scope (name ++ "=") { returnType := type, paramTypes := [("value", type)] }
  else r

/-- Takes a declaration in. -/
def declare (collapse : Bool) (r : Reader) : Declaration → Reader
  | .opening block closed => if closed then r else { r with blocks := block :: r.blocks }
  | .closing => { r with blocks := r.blocks.tail }
  | .method scopes name type =>
      if r.inInterface then r else { r with method := some ⟨scopes, name, type⟩ }
  | .attribute access scope name type =>
      if r.inInterface then r else r.addAttribute access scope name (docType collapse type)
  | .other => r

/-- Takes a line in, trimmed and without comment. -/
def readLine (collapse : Bool) (r : Reader) (line : Text) : Reader :=
  match r.method with
  | some m =>
      if m.goesOn line then { r with method := some (m.extend line) }
      else (r.closeMethod collapse).declare collapse (.ofLine line)
  | none => r.declare collapse (.ofLine line)

end Reader

namespace Index

/-- Adds the declarations of a signature file. -/
def addText (collapse : Bool) (index : Index) (t : Text) : Index :=
  let lines := t.records.map fun line => (withoutComment line).trim
  (lines.foldl (Reader.readLine collapse) { index }).closeMethod collapse |>.index

end Index

end RubyDoc.Signature
