import RubyDoc.Block.Existing
import RubyDoc.Signature.Lookup
import RubyDoc.Settings.Basic
import RubyDoc.Analysis.Parameter
import RubyDoc.Analysis.Result

/-!
# Tags

The tags that document a method, as data: which ones a definition gets under the settings and a
signature, how each is written, and whether an existing comment has it already.
-/

namespace RubyDoc.Block

open Syntax Analysis Outline Signature

/-- One tag of a method's documentation. -/
inductive Tag where
  | visibility (v : Visibility)
  /-- The method is a function of its module and leaves a copy of that visibility. -/
  | moduleFunction (name : Text) (copy : Visibility)
  | param (name type : Text)
  | raised (error : Text)
  | returned (type : Text)
  | returnedIf (type : Text) (errors : List Text)
  deriving DecidableEq, Repr

namespace Tag

/-- The comment line of a tag. -/
def line : Tag → Text
  | visibility v => "# @" ++ v.name
  | moduleFunction name copy =>
      "# " ++ moduleFunctionNote ++ " when included, also defines #" ++ name ++
        " (instance visibility: " ++ copy.name ++ ")"
  | param name type => "# @param [" ++ type ++ "] " ++ name ++ " Param documentation."
  | raised error => "# @raise [" ++ error ++ "]"
  | returned type => "# @return [" ++ type ++ "]"
  | returnedIf type errors => "# @return [" ++ type ++ "] if " ++ Text.join ", " errors

end Tag

/-- Does the comment have the tag?  Any result stands for all of them. -/
def Existing.covers (e : Existing) : Tag → Bool
  | .visibility _ => e.hasVisibility
  | .moduleFunction _ _ => e.hasModuleNote
  | .param name _ => e.params.contains name
  | .raised error => e.raised.contains error
  | .returned _ | .returnedIf _ _ => e.hasReturn

/-- The tag for a visibility other than public. -/
def visibilityTags (s : Settings) (d : Definition) : List Tag :=
  if s.emit.visibilityTags && d.visibility ≠ .pub then [.visibility d.visibility] else []

/-- The tag for a function of a module. -/
def moduleFunctionTags (d : Definition) : List Tag :=
  (d.copy?.map (Tag.moduleFunction d.name)).toList

/-- The results of a method as its text shows them. -/
def inferredReturns (s : Settings) (src : Source) (d : Definition) : ReturnSpec :=
  returnSpec src ⟨s.inference.fallback, s.inference.nilAsOptional⟩ d.node

/-- The parameters of a method as its text shows them. -/
def inferredParameters (s : Settings) (src : Source) (d : Definition) : List Parameter :=
  parameters src ⟨s.inference.fallback, s.inference.optionsAsHash⟩ d.node

/-- The type of a parameter under a signature; none if the signature does not tell. -/
def signatureType? (s : Settings) (p : Parameter) (sig : Signature) : Option Text :=
  match p.kind, sig.restElement, sig.restValue with
  | .rest, some element, _ =>
      some (if s.signatures.collapse then "Array" else "Array<" ++ element ++ ">")
  | .keywordRest, _, some value =>
      some (if s.signatures.collapse then "Hash" else "Hash<Symbol, " ++ value ++ ">")
  | _, _, _ => sig.paramTypes.lookup p.name

/-- The tag of a parameter. -/
def paramTag (s : Settings) (f : Finding) (p : Parameter) : Except Trouble Tag := do
  let type ← f.read (signatureType? s p)
  .ok (.param p.name (type.getD p.type))

/-- The tags of the parameters, in order. -/
def paramTags (s : Settings) (src : Source) (d : Definition) (f : Finding) :
    Except Trouble (List Tag) :=
  if s.emit.paramTags then (inferredParameters s src d).mapM (paramTag s f) else .ok []

/-- The tags of the exceptions. -/
def raisedTags (s : Settings) (src : Source) (d : Definition) : List Tag :=
  if s.emit.raiseTags then (raisedTypes src d.node).map .raised else []

/-- The type of the usual result. -/
def returnType (s : Settings) (src : Source) (d : Definition) (f : Finding) :
    Except Trouble Text := do
  let declared ← f.read fun sig => some sig.returnType
  .ok (declared.getD (inferredReturns s src d).normal)

/-- The tags of the results. -/
def returnTags (s : Settings) (src : Source) (d : Definition) (type : Text) : List Tag :=
  (if s.returnTagFor d.scope d.visibility then [.returned type] else []) ++
    (if s.emit.rescueReturns then
      (inferredReturns s src d).branches.map fun (errors, type) => .returnedIf type errors
    else [])

/-- All tags of a method, given the tags of its results. -/
def tagsWith (s : Settings) (src : Source) (d : Definition) (f : Finding) (returns : List Tag) :
    Except Trouble (List Tag) := do
  let params ← paramTags s src d f
  .ok (visibilityTags s d ++ moduleFunctionTags d ++ params ++ raisedTags s src d ++ returns)

end RubyDoc.Block
