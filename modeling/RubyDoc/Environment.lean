import RubyDoc.Path

/-!
# The environment

The variables that a run can see, and what they decide: which troubles are reported, and where data
of the program's own is kept.
-/

namespace RubyDoc

/-- Variables and their values. -/
abbrev Environment := List (Text × Text)

namespace Environment

/-- The value of a variable. -/
def get? (env : Environment) (name : Text) : Option Text :=
  env.lookup name

/-- Definitions left out because of trouble are to be reported. -/
def reportsTrouble (env : Environment) : Bool :=
  let value := ((env.get? "YARDGEN_DEBUG").getD []).map Sym.smallAscii
  [Text.ofString "1", "true", "yes", "on"].contains value

/-- A failing lookup of a signature is to be reported. -/
def reportsLookups (env : Environment) : Bool :=
  env.get? "YARDGEN_RBS_DEBUG" = some (Text.ofString "1")

/-- The systems that keep the data of programs in a common directory. -/
def hasCommonData (system : Text) : Bool :=
  system = Text.ofString "Linux" || system.endsWith "BSD"

/-- The directory for data of the program's own, below the home directory or the common one. -/
def dataDirectory (env : Environment) (system : Text) (home : Path) : Path :=
  if hasCommonData system then
    let common := match (env.get? "XDG_DATA_HOME").filter fun value => !value.isEmpty with
      | some value => Path.ofText value
      | none => home.join (.ofText ".local/share")
    common.join (.ofText "yardgen")
  else home.join (.ofText ".yardgen")

end Environment

end RubyDoc
