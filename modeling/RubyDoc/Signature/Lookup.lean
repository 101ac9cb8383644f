import RubyDoc.Signature.Basic

/-!
# Looking up signatures

A provider may answer, know nothing, fail, or hand out a signature that cannot be read; it may also
answer differently each time.  The lookup in front of it asks once for each key, remembers the
answer, takes a failure for "no signature", and reports the first failure if that is wanted.
-/

namespace RubyDoc.Signature

/-- What went wrong, by kind and wording. -/
structure Trouble where
  kind : Text
  wording : Text
  deriving DecidableEq, Repr

/-- The trouble in one line. -/
def Trouble.text (t : Trouble) : Text :=
  t.kind ++ ": " ++ t.wording

/-- What a lookup finds. -/
inductive Finding where
  | nothing
  | found (s : Signature)
  /-- A signature that gives trouble as soon as anything in it is read. -/
  | unreadable (t : Trouble)
  deriving DecidableEq, Repr

/-- Reads a part of what was found; nothing has no parts. -/
def Finding.read {α : Type} (part : Signature → Option α) : Finding → Except Trouble (Option α)
  | nothing => .ok none
  | found s => .ok (part s)
  | unreadable t => .error t

/-- A source of signatures.  An answer may depend on the keys asked for before, the latest first. -/
structure Provider where
  answer : (earlier : List Key) → Key → Except Trouble Finding
  /-- What the provider reports when it has got itself ready. -/
  notice : Option Text := none

/-- A line for the diagnostic stream: always written, or only on request. -/
inductive Diagnostic where
  | trace (line : Text)
  | debug (line : Text)
  deriving DecidableEq, Repr

/-- The state of a series of lookups. -/
structure Lookups where
  /-- The keys that were looked up and what is remembered for them, the latest first. -/
  answers : List (Key × Finding) := []
  /-- The keys that the provider was asked for, the latest first. -/
  calls : List Key := []
  /-- A failure is to be reported. -/
  reportFailure : Bool := false
  noticed : Bool := false
  /-- What was reported, in order. -/
  log : List Diagnostic := []

namespace Lookups

/-- Adds a line to the report. -/
def report (l : Lookups) (d : Diagnostic) : Lookups :=
  { l with log := l.log ++ [d] }

/-- The keys for which something is remembered, the latest first. -/
def keys (l : Lookups) : List Key :=
  l.answers.map Prod.fst

/-- Takes note that the provider is asked for a key. -/
def ask (l : Lookups) (key : Key) : Lookups :=
  { l with calls := key :: l.calls }

/-- Remembers what was found for a key. -/
def remember (l : Lookups) (key : Key) (f : Finding) : Lookups :=
  { l with answers := (key, f) :: l.answers }

/-- Passes on the provider's notice, once. -/
def notice (l : Lookups) (p : Provider) : Lookups :=
  match p.notice with
  | some line => if l.noticed then l else { l.report (.debug line) with noticed := true }
  | none => l

/-- Takes note of a failure: the first is reported if that is wanted. -/
def fail (l : Lookups) (t : Trouble) : Lookups :=
  if l.reportFailure then
    { l.report (.trace ("yardgen: signature lookup failed: " ++ t.text)) with
      reportFailure := false }
  else l

/-- Looks up a key.  Without a provider there is nothing to find. -/
def find (provider : Option Provider) (key : Key) (l : Lookups) : Finding × Lookups :=
  match provider with
  | none => (.nothing, l)
  | some p =>
      match l.answers.lookup key with
      | some f => (f, l)
      | none =>
          match p.answer l.calls key with
          | .ok f => (f, ((l.ask key).notice p).remember key f)
          | .error t => (.nothing, (((l.ask key).notice p).fail t).remember key .nothing)

end Lookups

end RubyDoc.Signature
