import RubyDoc.Block.Tag
import RubyDoc.Pattern.Engine

/-!
# Documentation blocks

The block of comment lines for a definition, and the lines that an existing comment lacks.  Both
look up signatures as they go; a signature that cannot be read leaves the definition without lines,
and that is reported if it is wanted.
-/

namespace RubyDoc.Block

open Syntax Outline Signature

/-- What a block depends on besides the definition. -/
structure Builder where
  source : Source
  settings : Settings
  provider : Option Provider := none
  /-- The name of the file in reports. -/
  file : Text := "(inline)"
  /-- Definitions left out because of trouble are to be reported. -/
  reportTrouble : Bool := false
  /-- What reads the patterns of the settings. -/
  engine : Pattern.Engine := .builtIn

/-- The comment line that says nothing. -/
def blank : Text := "#"

/-- The key of a definition's signature. -/
def keyOf (d : Definition) : Key :=
  ⟨d.container, d.scope, d.name⟩

/-- The key of the signature of an attribute's writer. -/
def writerKeyOf (d : Definition) : Key :=
  ⟨d.container, d.scope, d.name ++ "="⟩

/-! ## Methods -/

/-- The heading of a method's block, with its id and result. -/
def headingLines (s : Settings) (d : Definition) (type : Text) : List Text :=
  if s.emit.header then ["# +" ++ d.id ++ "+ -> " ++ type, blank] else []

/-- The description in a method's block. -/
def descriptionLines (s : Settings) (d : Definition) : List Text :=
  if s.emit.description then ["# " ++ s.messageFor d.scope d.visibility, blank] else []

/-- The lines of a method's block, blank ones at its end included. -/
def methodLines (s : Settings) (src : Source) (d : Definition) (f : Finding) :
    Except Trouble (List Text) := do
  let type ← returnType s src d f
  let tags ← tagsWith s src d f (returnTags s src d type)
  .ok (headingLines s d type ++ descriptionLines s d ++ tags.map Tag.line)

/-- The tags that an existing comment of a method lacks.  With a result in the comment the result is
not looked at. -/
def missingTags (s : Settings) (src : Source) (d : Definition) (f : Finding) (e : Existing) :
    Except Trouble (List Tag) := do
  let type ← if e.hasReturn then .ok [] else returnType s src d f
  let returns := if e.hasReturn then [] else returnTags s src d type
  let tags ← tagsWith s src d f returns
  .ok (tags.filter fun t => !e.covers t)

/-- The lines that join an existing comment, set off by a blank one. -/
def joining (e : Existing) (lines : List Text) : List Text :=
  if lines.isEmpty || e.endsWithBlank then lines else blank :: lines

/-! ## Attributes -/

/-- The lines of an attribute's block. -/
def attributeLines (s : Settings) (d : Definition) (access : Access) (readType writeType : Text) :
    List Text :=
  ["# @!attribute [" ++ access.letters ++ "] " ++ d.name] ++
    (if s.emit.visibilityTags && d.visibility ≠ .pub then ["#   @" ++ d.visibility.name] else []) ++
    (if access.reads then ["#   @return [" ++ readType ++ "]"] else []) ++
    (if access.writes then ["#   @param value [" ++ writeType ++ "]"] else [])

/-- The type that a writer takes: that of its value, or else its result. -/
def writtenType (sig : Signature) : Text :=
  (sig.paramTypes.lookup (Text.ofString "value")).getD sig.returnType

namespace Builder

/-- Looks up a key. -/
def find (b : Builder) (key : Key) : StateM Lookups Finding :=
  Lookups.find b.provider key

/-- The report of trouble with a definition. -/
def troubleLine (b : Builder) (d : Definition) (t : Trouble) : Text :=
  "yardgen DEBUG: DocBuilder.build failed at " ++ b.file ++ ":" ++ Text.ofNat d.node.line ++
    " (" ++ d.id ++ "): " ++ t.text

/-- Takes trouble for "no lines", and reports it if that is wanted. -/
def settle (b : Builder) (d : Definition) :
    Except Trouble (List Text) → StateM Lookups (List Text)
  | .ok lines => pure lines
  | .error t => do
      if b.reportTrouble then modify (·.report (.trace (b.troubleLine d t)))
      pure []

/-- The type under one key of an attribute, or the fallback type. -/
def attributeType (b : Builder) (key : Key) (part : Signature → Text) :
    ExceptT Trouble (StateM Lookups) Text := do
  let f ← b.find key
  let type ← (f.read fun sig => some (part sig) : Except Trouble (Option Text))
  pure (type.getD b.settings.inference.fallback)

/-- The lines of an attribute's block.  The writer is looked up after the reader gave no trouble. -/
def attributeBlock (b : Builder) (d : Definition) (access : Access) :
    ExceptT Trouble (StateM Lookups) (List Text) := do
  let fallback := b.settings.inference.fallback
  let readType ←
    if access.reads then b.attributeType (keyOf d) Signature.returnType else pure fallback
  let writeType ←
    if access.writes then b.attributeType (writerKeyOf d) writtenType else pure fallback
  pure (attributeLines b.settings d access readType writeType)

/-- The block of a definition before its indentation, blank lines at its end included. -/
def rawBlock (b : Builder) (d : Definition) : StateM Lookups (List Text) := do
  match d.role with
  | .method _ =>
      let f ← b.find (keyOf d)
      b.settle d (methodLines b.settings b.source d f)
  | .attribute access => b.settle d (← (b.attributeBlock d access).run)

/-- The lines without blank ones at the end. -/
def dropBlankEnd (lines : List Text) : List Text :=
  (lines.reverse.dropWhile (· = blank)).reverse

/-- The block of a definition, every line after the indentation.  It is empty if there is nothing to
write. -/
def block (b : Builder) (d : Definition) (indent : Text) : StateM Lookups (List Text) := do
  let lines ← b.rawBlock d
  pure ((dropBlankEnd lines).map (indent ++ ·))

/-- The lines that an existing comment lacks, every line after the indentation. -/
def additions (b : Builder) (d : Definition) (existing : List Text) (indent : Text) :
    StateM Lookups (List Text) := do
  let e := Existing.ofLines existing
  let lines ← match d.role with
    | .method _ => do
        let f ← b.find (keyOf d)
        b.settle d ((missingTags b.settings b.source d f e).map fun tags =>
          joining e (tags.map Tag.line))
    | .attribute access =>
        if e.attributes.contains d.name then pure []
        else do
          let lines ← (b.attributeBlock d access).run
          b.settle d (lines.map (joining e))
  pure (lines.map (indent ++ ·))

end Builder

end RubyDoc.Block
