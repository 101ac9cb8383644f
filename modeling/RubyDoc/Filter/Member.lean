import RubyDoc.Settings.Basic
import RubyDoc.Failure
import RubyDoc.Pattern.Engine
import RubyDoc.Pattern.Glob

/-!
# Filtering members

A member is documented if its scope and visibility are allowed, no exclude pattern matches its id,
and an include pattern does if there are any.  A pattern between slashes is a regular expression to
be found in the id; any other pattern is a glob for the whole id.  An expression that the engine
rejects fails when it is first tried.
-/

namespace RubyDoc.Filter

open Outline Pattern

/-- Is the pattern a regular expression between slashes? -/
def isRegex (pattern : Text) : Bool :=
  2 ≤ pattern.length && pattern.startsWith "/" && pattern.endsWith "/"

/-- The failure of a pattern whose expression is rejected. -/
def failureOf (pattern : Text) : Rejection → Failure
  | .malformed => .badPattern pattern
  | .unforeseen => .unexpected

/-- In which texts is the regular expression found that stands between the slashes of a pattern? -/
def regexOf (engine : Engine) (pattern : Text) : Except Failure (Text → Bool) :=
  (engine.regex (pattern.drop 1).dropLast).mapError (failureOf pattern)

/-- Does a pattern match an id? -/
def matchesId (pattern : Text) (engine : Engine := .builtIn) (id : Text) : Except Failure Bool :=
  if isRegex pattern then (regexOf engine pattern).map fun found => found id
  else .ok (Glob.isMatch pattern id)

/-- Does one of the patterns match an id?  Empty patterns are passed over, and nothing is tried
after the first match. -/
def anyMatches (engine : Engine) (id : Text) : (patterns : List Text) → Except Failure Bool
  | [] => .ok false
  | p :: rest =>
      if p.isEmpty then anyMatches engine id rest
      else do
        if ← matchesId p engine id then .ok true else anyMatches engine id rest

/-- May a method be documented? -/
def allowsMethod (f : Settings.Filter) (container : Text) (scope : Scope) (v : Visibility)
    (name : Text) (engine : Engine := .builtIn) : Except Failure Bool :=
  if !f.scopes.contains scope || !f.visibilities.contains v then .ok false
  else do
    let id := memberId container scope name
    if ← anyMatches engine id f.excludes then .ok false
    else if f.includes.all List.isEmpty then .ok true
    else anyMatches engine id f.includes

/-- The names of the methods that an attribute defines. -/
def accessorNames (access : Access) (name : Text) : List Text :=
  (if access.reads then [name] else []) ++ (if access.writes then [name ++ "="] else [])

/-- Does one of the names pass?  Nothing is tried after the first that does. -/
def anyAllowed (f : Settings.Filter) (container : Text) (scope : Scope) (v : Visibility)
    (engine : Engine) : (names : List Text) → Except Failure Bool
  | [] => .ok false
  | name :: rest => do
      if ← allowsMethod f container scope v name engine then .ok true
      else anyAllowed f container scope v engine rest

/-- May an attribute be documented?  It may if one of the methods that it defines may. -/
def allowsAttribute (f : Settings.Filter) (container : Text) (scope : Scope) (v : Visibility)
    (name : Text) (access : Access) (engine : Engine := .builtIn) : Except Failure Bool :=
  anyAllowed f container scope v engine (accessorNames access name)

/-- May a definition be documented under the settings? -/
def allows (s : Settings) (d : Definition) (engine : Engine := .builtIn) : Except Failure Bool :=
  match d.role with
  | .method _ => allowsMethod s.filter d.container d.scope d.visibility d.name engine
  | .attribute access =>
      if s.emit.attributes then
        allowsAttribute s.filter d.container d.scope d.visibility d.name access engine
      else .ok false

end RubyDoc.Filter
