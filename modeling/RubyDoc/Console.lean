import RubyDoc.Text.Basic

/-!
# The console

Two streams: data for whoever captures the output, and diagnostics for whoever looks on.  Which
diagnostics are shown depends on two switches; data, warnings, errors and traces always are.
-/

namespace RubyDoc

/-- One thing to tell. -/
inductive Message where
  /-- Data with a line feed after it. -/
  | line (t : Text)
  /-- Data as it is. -/
  | raw (t : Text)
  | info (t : Text)
  | success (t : Text)
  | warning (t : Text)
  | error (t : Text)
  | suggestion (t : Text)
  | debug (t : Text)
  | trace (t : Text)
  deriving DecidableEq, Repr

/-- What the two streams have received. -/
structure Streams where
  data : Text := []
  diagnostics : Text := []
  deriving DecidableEq, Repr

/-- The switches of a console. -/
structure Console where
  quiet : Bool := false
  verbose : Bool := false
  deriving DecidableEq, Repr

namespace Console

/-- What a message adds to the data stream. -/
def data : Message → Text
  | .line t => t ++ "\n"
  | .raw t => t
  | _ => []

/-- The line that a message adds to the diagnostics, if it is shown. -/
def diagnostic? (c : Console) : Message → Option Text
  | .line _ | .raw _ => none
  | .info t | .success t => if c.quiet then none else some t
  | .suggestion t => if c.quiet then none else some ("→ " ++ t)
  | .warning t => some ("Warning: " ++ t)
  | .error t => some ("Error: " ++ t)
  | .debug t => if c.verbose then some ("[debug] " ++ t) else none
  | .trace t => some t

/-- Tells a message. -/
def tell (c : Console) (streams : Streams) (m : Message) : Streams where
  data := streams.data ++ data m
  diagnostics := streams.diagnostics ++ ((c.diagnostic? m).map (· ++ [Sym.lineFeed])).getD []

/-- Tells messages one after another. -/
def tellAll (c : Console) (messages : List Message) : Streams :=
  messages.foldl c.tell {}

/-- The console in force: the one that was installed, or one with no switch set. -/
def inForce (installed : Option Console) : Console :=
  installed.getD {}

end Console

end RubyDoc
