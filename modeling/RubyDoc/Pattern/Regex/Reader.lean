import RubyDoc.Pattern.Regex.Token

/-!
# Reading regular expressions

Tokens become an expression with the help of a stack that holds one frame for every parenthesis that
is still open.  Reading fails on parentheses without partner, on a repetition of nothing, and on a
repetition of a repetition.
-/

namespace RubyDoc.Pattern.Regex

/-- What a repetition may follow. -/
inductive Repeatable where
  | yes | anchor | repeated
  deriving DecidableEq, Repr

/-- What has been read since a parenthesis was opened: finished alternatives, and the current one,
both with the latest first. -/
structure Frame where
  opening : Opening
  switches : Switches
  finished : List Regex := []
  current : List (Regex × Repeatable) := []

namespace Frame

/-- The expression of the current alternative. -/
def alternative (f : Frame) : Regex :=
  ofList (f.current.reverse.map Prod.fst)

/-- The expression of all alternatives. -/
def close (f : Frame) : Regex :=
  f.finished.foldl (fun later earlier => alt earlier later) f.alternative

/-- Adds an expression to the current alternative. -/
def push (f : Frame) (r : Regex) (repeatable : Repeatable) : Frame :=
  { f with current := (r, repeatable) :: f.current }

end Frame

/-- The stack: the frame being filled, those around it, and the names of groups. -/
structure Reading where
  top : Frame := { opening := .plain, switches := {} }
  around : List Frame := []
  names : List Text := []

namespace Reading

/-- Sets the switches that `letters` name. -/
def switched (s : Switches) (letters : List Char) (value : Bool) : Switches :=
  { anyCase := if letters.contains 'i' then value else s.anyCase
    dotAll := if letters.contains 's' then value else s.dotAll
    multiline := if letters.contains 'm' then value else s.multiline }

/-- Opens a parenthesis. -/
def opened (r : Reading) (o : Opening) : Option Reading :=
  let switches := match o with
    | .switched on off => switched (switched r.top.switches on true) off false
    | _ => r.top.switches
  let next : Reading := { r with top := { opening := o, switches }, around := r.top :: r.around }
  match o with
  | .named name =>
      if r.names.contains name then none else some { next with names := name :: r.names }
  | _ => some next

/-- Closes a parenthesis. -/
def closed (r : Reading) : Option Reading :=
  match r.around with
  | [] => none
  | outer :: around =>
      let inner := r.top.close
      let whole := match r.top.opening with
        | .ahead negated => ahead inner negated
        | _ => inner
      some { r with top := outer.push whole .yes, around }

/-- Repeats the latest expression. -/
def repeated (r : Reading) (least : Nat) (most : Option Nat) : Option Reading :=
  match r.top.current with
  | (item, .yes) :: before =>
      if most.all (least ≤ ·) then
        some { r with
          top := { r.top with current := (times item least most, .repeated) :: before } }
      else none
  | _ => none

/-- Nothing has been read yet. -/
def isFresh (r : Reading) : Bool :=
  r.around.isEmpty && r.top.finished.isEmpty && r.top.current.isEmpty

/-- One token. -/
def take (r : Reading) (token : Token) : Option Reading :=
  let s := r.top.switches
  let push (e : Regex) (repeatable : Repeatable) : Option Reading :=
    some { r with top := r.top.push e repeatable }
  match token with
  | .set set => push (one { set with anyCase := s.anyCase }) .yes
  | .dot => push (one (if s.dotAll then .all else .allBut .lineFeed)) .yes
  | .caret => push (anchor (if s.multiline then .lineStart else .textStart)) .anchor
  | .dollar => push (anchor (if s.multiline then .lineEnd else .finalLineEnd)) .anchor
  | .anchor a => push (anchor a) .anchor
  | .times least most => r.repeated least most
  | .opening o => r.opened o
  | .closing => r.closed
  | .bar =>
      some { r with
        top := { r.top with finished := r.top.alternative :: r.top.finished, current := [] } }
  | .switches on =>
      if r.isFresh then some { r with top := { r.top with switches := switched s on true } }
      else none
  | .remark => some r

end Reading

/-- The expression that a text denotes, if it denotes one. -/
def ofText? (t : Text) : Option Regex := do
  let tokens ← Token.readAll? t.length t
  let reading ← tokens.foldlM Reading.take {}
  if reading.around.isEmpty then some reading.top.close else none

end RubyDoc.Pattern.Regex
