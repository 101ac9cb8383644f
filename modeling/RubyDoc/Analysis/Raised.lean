import RubyDoc.Analysis.Constant

/-!
# Raised exceptions

The exceptions that a method names, in the order of the text: what its `raise` and `fail` calls
raise and what its `rescue` clauses handle.  The search goes through the whole tree of the method,
except for the words that name a called or defined method.
-/

namespace RubyDoc.Analysis

open RubyDoc.Syntax

/-- What is raised or handled when no class is named. -/
def defaultError : Text := "StandardError"

/-- The class that an expression names, or the default error. -/
def errorClass (s : Source) (n : Node) : Text :=
  ((constantPath? s n).bind Source.nonempty?).getD defaultError

/-- The exceptions that a rescue clause handles. -/
def handledErrors (s : Source) (clause : Node) : List Text :=
  match clause.codeOf .exceptions with
  | [] => [defaultError]
  | listed => listed.map (errorClass s)

/-- What a call raises: the class of the first argument of a bare `raise` or `fail`. -/
def raisedBy? (s : Source) (n : Node) : Option Text :=
  match s.callName? n with
  | some name =>
      if (name = Text.ofString "raise" ∨ name = Text.ofString "fail") ∧ n.isReceiverless then
        match n.arguments with
        | [] => some defaultError
        | first :: _ => some (errorClass s first)
      else none
  | none => none

mutual

/-- Every mention of an exception below and at a node, in order and with repetitions. -/
def raisedEvents (s : Source) : Node → List Text
  | n@⟨kind, _, _, _, _, _, _, _, children⟩ =>
      match kind with
      | .rescue => handledErrors s n ++ raisedEventsIn s children
      | .rescueModifier =>
          raisedEventsOf s .body children ++ defaultError :: raisedEventsOf s .handler children
      | .call => (raisedBy? s n).toList ++ raisedEventsBut s .method children
      | .identifier => (raisedBy? s n).toList ++ raisedEventsIn s children
      | .method | .singletonMethod => raisedEventsBut s .name children
      | _ => raisedEventsIn s children

/-- The mentions in the named nodes of a list. -/
def raisedEventsIn (s : Source) : List Node → List Text
  | [] => []
  | c :: cs => (if c.isNamed then raisedEvents s c else []) ++ raisedEventsIn s cs

/-- The mentions in the named nodes of a list, without the first that fills the field `f`. -/
def raisedEventsBut (s : Source) (f : Field) : List Node → List Text
  | [] => []
  | c :: cs =>
      if c.field = some f then raisedEventsIn s cs
      else (if c.isNamed then raisedEvents s c else []) ++ raisedEventsBut s f cs

/-- The mentions in the first node of a list that fills the field `f`. -/
def raisedEventsOf (s : Source) (f : Field) : List Node → List Text
  | [] => []
  | c :: cs => if c.field = some f then raisedEvents s c else raisedEventsOf s f cs

end

/-- The exceptions of a method, each at its first mention. -/
def raisedTypes (s : Source) (method : Node) : List Text :=
  (raisedEvents s method).eraseDups

end RubyDoc.Analysis
