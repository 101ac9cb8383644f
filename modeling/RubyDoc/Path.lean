import RubyDoc.Text.Basic

/-!
# Paths

A path is a list of names below an optional root.  Reading a path drops empty names and single dots,
so two spellings of one path are equal; double dots stay, because what they lead to depends on the
files.  Relative paths between normal paths are computed by names alone.
-/

namespace RubyDoc

/-- A path: the slashes it starts with, and its names. -/
structure Path where
  root : Text
  names : List Text
  deriving DecidableEq, Repr

namespace Path

/-- The separator of names. -/
def slash : Sym := .char '/'

/-- The name of a directory itself. -/
def here : Text := "."

/-- The name of the directory above. -/
def above : Text := ".."

/-- The path that a text spells.  Exactly two leading slashes are a root of their own. -/
def ofText (t : Text) : Path :=
  let lead := (t.takeWhile (· = slash)).length
  { root := if lead = 0 then [] else if lead = 2 then [slash, slash] else [slash]
    names := (Text.splitOn slash t).filter fun n => !n.isEmpty && n ≠ here }

/-- The text of a path. -/
def toText (p : Path) : Text :=
  if p.root.isEmpty && p.names.isEmpty then here else p.root ++ Text.join [slash] p.names

/-- Does the path start at a root? -/
def isAbsolute (p : Path) : Bool :=
  !p.root.isEmpty

/-- The path `q` seen from `p`. -/
def join (p q : Path) : Path :=
  if q.isAbsolute then q else { p with names := p.names ++ q.names }

/-- The name of what the path leads to. -/
def name (p : Path) : Text :=
  p.names.getLast?.getD []

/-- The directory that holds what the path leads to. -/
def parent (p : Path) : Path :=
  { p with names := p.names.dropLast }

/-- One name after others, the latest first; at the root there is nothing above. -/
def climb (isAbsolute : Bool) (before : List Text) (name : Text) : List Text :=
  if name ≠ above then name :: before
  else
    match before with
    | last :: rest => if last = above then name :: before else rest
    | [] => if isAbsolute then [] else [name]

/-- The path without double dots, as far as names alone can tell. -/
def normal (p : Path) : Path :=
  { p with names := (p.names.foldl (climb p.isAbsolute) []).reverse }

/-- What two lists have in common at their start is cut off from both. -/
def cutCommon : List Text → List Text → List Text × List Text
  | a :: as, b :: bs => if a = b then cutCommon as bs else (a :: as, b :: bs)
  | as, bs => (as, bs)

/-- The way from the directory `base` to `p`, both seen from `directory`. -/
def relativeTo (directory base p : Path) : List Text :=
  let (up, down) := cutCommon (directory.join base).normal.names (directory.join p).normal.names
  up.map (fun _ => above) ++ down

/-- The path `p` as filters see it: relative to `base` if it lies below it, else as it is.  Below
means that the way from `base` does not start with two dots. -/
def filterForm (directory base p : Path) : Text :=
  let way := Text.join [slash] (relativeTo directory base p)
  if way.startsWith above then p.toText else (ofText way).toText

/-- The order of paths, by their names one after another. -/
def le (p q : Path) : Bool :=
  go ((if p.isAbsolute then [p.root] else []) ++ p.names)
    ((if q.isAbsolute then [q.root] else []) ++ q.names)
where
  go : List Text → List Text → Bool
    | [], _ => true
    | _ :: _, [] => false
    | a :: as, b :: bs => if a = b then go as bs else Text.le a b

end Path

end RubyDoc
