import RubyDoc.Text.Basic

/-!
# Options on a command line

A long option is a word after two hyphens, its value after an equals sign or in the next argument.
Short options are letters after one hyphen; the value of the last is the rest of the argument or the
next one.  Two hyphens alone end the options.  What an option does is a function on what a command
collects.
-/

namespace RubyDoc.Command

/-- What an option does: a switch, or something with a value. -/
inductive Effect (α : Type) where
  | switch (set : α → α)
  | withValue (set : Text → α → α)

/-- An option: its spellings, hyphens included, and its effect. -/
structure CommandOption (α : Type) where
  spellings : List Text
  effect : Effect α

/-- The options of a command, and whether other arguments may stand between them. -/
structure OptionSet (α : Type) where
  options : List (CommandOption α)
  interspersed : Bool

namespace OptionSet

variable {α : Type}

/-- The effect of the option with a spelling. -/
def find? (set : OptionSet α) (spelling : Text) : Option (Effect α) :=
  (set.options.find? fun o => o.spellings.contains spelling).map CommandOption.effect

/-- Is the argument of the form of options?  A lone hyphen is not. -/
def isOption (argument : Text) : Bool :=
  argument.startsWith "-" && 1 < argument.length

/-- Cuts a long option from the value after its equals sign. -/
def cutValue (argument : Text) : Text × Option Text :=
  let name := argument.takeWhile (· ≠ Sym.char '=')
  match argument.drop name.length with
  | [] => (name, none)
  | _ :: value => (name, some value)

/-- Applies the letters of an argument with short options; `rest` are the arguments after it. -/
def applyLetters (set : OptionSet α) : (letters : Text) → (rest : List Text) → α →
    Option (List Text × α)
  | [], rest, a => some (rest, a)
  | letter :: letters, rest, a =>
      match set.find? [.char '-', letter] with
      | none => none
      | some (.switch f) => applyLetters set letters rest (f a)
      | some (.withValue f) =>
          match letters, rest with
          | [], [] => none
          | [], value :: rest => some (rest, f value a)
          | value, rest => some (rest, f value a)

/-- Applies one argument with options; `rest` are the arguments after it. -/
def applyArgument (set : OptionSet α) (argument : Text) (rest : List Text) (a : α) :
    Option (List Text × α) :=
  let (name, value) := cutValue argument
  let isLong := name.startsWith "--"
  match if isLong then set.find? name else none, value, rest with
  | some (.switch f), none, _ => some (rest, f a)
  | some (.switch _), some _, _ => none
  | some (.withValue f), some value, _ => some (rest, f value a)
  | some (.withValue f), none, value :: rest => some (rest, f value a)
  | some (.withValue _), none, [] => none
  | none, _, _ => if argument.startsWith "--" then none else applyLetters set argument.tail rest a

/-- Applies the options of a command line.  The result has the other arguments in order; none if an
option is unknown or used wrongly. -/
def apply (set : OptionSet α) : (fuel : Nat) → (arguments : List Text) → α →
    Option (List Text × α)
  | 0, _, _ => none
  | _, [], a => some ([], a)
  | fuel + 1, argument :: rest, a =>
      if argument = Text.ofString "--" then some (rest, a)
      else if isOption argument then do
        let (rest, a) ← set.applyArgument argument rest a
        set.apply fuel rest a
      else if set.interspersed then do
        let (others, a) ← set.apply fuel rest a
        some (argument :: others, a)
      else some (argument :: rest, a)

/-- Reads a command line, starting from given settings. -/
def read (set : OptionSet α) (arguments : List Text) (a : α) : Option (List Text × α) :=
  set.apply (arguments.length + 1) arguments a

end OptionSet

end RubyDoc.Command
