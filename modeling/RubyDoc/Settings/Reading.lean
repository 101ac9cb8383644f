import RubyDoc.Settings.Basic
import RubyDoc.Failure
import RubyDoc.Value

/-!
# Reading settings from data

Every section and every value may be missing and then keeps its default; unknown keys are passed
over.  A switch also takes a number or a word for yes or no.  All faults are found in one pass, in
the order in which the sections are declared.
-/

namespace RubyDoc.Settings

open Outline

/-- Reading notes faults and goes on. -/
abbrev Reader := StateM (List Fault)

/-- Notes a fault. -/
def noteFault (path : List Step) (m : Mismatch) : Reader Unit :=
  modify (· ++ [⟨path, m⟩])

/-- Notes a fault and keeps the default. -/
def keep {α : Type} (path : List Step) (m : Mismatch) (default : α) : Reader α := do
  noteFault path m
  pure default

/-- The words for no. -/
def noWords : List Text := ["0", "f", "n", "no", "off", "false"]

/-- The words for yes. -/
def yesWords : List Text := ["1", "t", "y", "on", "yes", "true"]

/-- The answer that a word gives. -/
def wordBool? (t : Text) : Option Bool :=
  let small := t.map Sym.smallAscii
  if noWords.contains small then some false
  else if yesWords.contains small then some true
  else none

/-- The answer that a whole number gives; beyond 64 bits a number is none. -/
def intBool (i : Int) : Except Mismatch Bool :=
  if i = 0 then .ok false
  else if i = 1 then .ok true
  else if -9223372036854775808 ≤ i ∧ i < 9223372036854775808 then .error .unreadableBool
  else .error .notBool

/-- The answer that a value gives. -/
def boolOf : Value → Except Mismatch Bool
  | .bool b => .ok b
  | .text t =>
      match wordBool? t with
      | some b => .ok b
      | none => .error .unreadableBool
  | .int i => intBool i
  | .float (some i) => intBool i
  | _ => .error .notBool

/-- Reads a switch. -/
def readBool (path : List Step) (default : Bool) : Option Value → Reader Bool
  | none => pure default
  | some v =>
      match boolOf v with
      | .ok b => pure b
      | .error m => keep path m default

/-- Reads a text. -/
def readText (path : List Step) (default : Text) : Option Value → Reader Text
  | none => pure default
  | some (.text t) => pure t
  | some _ => keep path .notText default

/-- Reads a text that must not be empty. -/
def readFilled (path : List Step) (default : Text) : Option Value → Reader Text
  | none => pure default
  | some (.text t) => if t.isEmpty then keep path .emptyText default else pure t
  | some _ => keep path .notText default

/-- Reads a value that may be missing or null. -/
def readOptional {α : Type} (read : Option Value → Reader α) : Option Value → Reader (Option α)
  | none | some .null => pure none
  | some v => do pure (some (← read (some v)))

/-- Reads the items of a list from position `i` on, leaving out faulty ones. -/
def readItems {α : Type} (path : List Step) (item : Value → Except Mismatch α) :
    (i : Nat) → List Value → Reader (List α)
  | _, [] => pure []
  | i, v :: vs =>
      match item v with
      | .ok a => do pure (a :: (← readItems path item (i + 1) vs))
      | .error m => do
          noteFault (path ++ [.index i]) m
          readItems path item (i + 1) vs

/-- Reads a list. -/
def readList {α : Type} (path : List Step) (item : Value → Except Mismatch α) (default : List α) :
    Option Value → Reader (List α)
  | none => pure default
  | some (.list items) => readItems path item 0 items
  | some _ => keep path .notList default

/-- An item that is a text. -/
def textItem : Value → Except Mismatch Text
  | .text t => .ok t
  | _ => .error .notText

/-- An item that is one of some named choices. -/
def choiceItem {α : Type} (ofName? : Text → Option α) : Value → Except Mismatch α
  | .text t => (ofName? t).elim (.error .notChoice) .ok
  | _ => .error .notChoice

/-- Reads a section: a mapping, whose values `read` then looks up. -/
def readSection {α : Type} (path : List Step) (default : α)
    (read : (Text → List Step) → (Text → Option Value) → Reader α) : Option Value → Reader α
  | none => pure default
  | some v =>
      match v with
      | .mapping _ => read (fun key => path ++ [.key key]) v.get?
      | _ => keep path .notSection default

/-- The first of two keys under which there is a value, and that value; the first if there is
none. -/
def eitherKey (get? : Text → Option Value) (first second : Text) : Text × Option Value :=
  match get? first with
  | some v => (first, some v)
  | none =>
      match get? second with
      | some v => (second, some v)
      | none => (first, none)

/-! ## The sections -/

/-- Reads the section on the parts of a block. -/
def readEmit (path : List Step) : Option Value → Reader Emit :=
  readSection path {} fun at_ get? => do
    let flag (key : Text) (default : Bool) : Reader Bool := readBool (at_ key) default (get? key)
    pure {
      header := ← flag "header" true
      description := ← flag "description" true
      paramTags := ← flag "param_tags" true
      returnTag := ← flag "return_tag" true
      visibilityTags := ← flag "visibility_tags" true
      raiseTags := ← flag "raise_tags" true
      rescueReturns := ← flag "rescue_conditional_returns" true
      attributes := ← flag "attributes" false }

/-- Reads the section on texts. -/
def readDoc (path : List Step) : Option Value → Reader Doc :=
  readSection path {} fun at_ get? => do
    let key : Text := "default_message"
    pure { message := ← readText (at_ key) ({} : Doc).message (get? key) }

/-- Reads one bucket. -/
def readOverride (path : List Step) : Option Value → Reader Override :=
  readSection path {} fun at_ get? => do
    let tag : Text := "return_tag"
    let message : Text := "default_message"
    pure {
      returnTag := ← readOptional (readBool (at_ tag) true) (get? tag)
      message := ← readOptional (readText (at_ message) []) (get? message) }

/-- Reads the buckets of one scope. -/
def readByVisibility (path : List Step) : Option Value → Reader ByVisibility :=
  readSection path {} fun at_ get? => do
    let bucket (v : Visibility) : Reader Override := readOverride (at_ v.name) (get? v.name)
    pure { pub := ← bucket .pub, prot := ← bucket .prot, priv := ← bucket .priv }

/-- Reads the buckets of both scopes.  The key of class scope may have an underscore at its end. -/
def readMethods (path : List Step) : Option Value → Reader Methods :=
  readSection path {} fun at_ get? => do
    let instanceKey : Text := "instance"
    let (classKey, classValue) := eitherKey get? "class" "class_"
    pure {
      onInstance := ← readByVisibility (at_ instanceKey) (get? instanceKey)
      onClass := ← readByVisibility (at_ classKey) classValue }

/-- Reads the section on guessed types. -/
def readInference (path : List Step) : Option Value → Reader Inference :=
  readSection path {} fun at_ get? => do
    let fallback : Text := "fallback_type"
    let optional : Text := "nil_as_optional"
    let options : Text := "treat_options_keyword_as_hash"
    pure {
      fallback := ← readFilled (at_ fallback) ({} : Inference).fallback (get? fallback)
      nilAsOptional := ← readBool (at_ optional) true (get? optional)
      optionsAsHash := ← readBool (at_ options) true (get? options) }

/-- Reads the section on files. -/
def readFileFilter (path : List Step) : Option Value → Reader FileFilter :=
  readSection path {} fun at_ get? => do
    let list (key : Text) : Reader (List Text) := readList (at_ key) textItem [] (get? key)
    pure { includes := ← list "include", excludes := ← list "exclude" }

/-- Reads the section on members. -/
def readFilter (path : List Step) : Option Value → Reader Filter :=
  readSection path {} fun at_ get? => do
    let list (key : Text) : Reader (List Text) := readList (at_ key) textItem [] (get? key)
    let visibilities : Text := "visibilities"
    let scopes : Text := "scopes"
    let files : Text := "files"
    pure {
      visibilities := ← readList (at_ visibilities) (choiceItem Visibility.ofName?) Visibility.all
        (get? visibilities)
      scopes := ← readList (at_ scopes) (choiceItem Scope.ofName?) Scope.all (get? scopes)
      includes := ← list "include"
      excludes := ← list "exclude"
      files := ← readFileFilter (at_ files) (get? files) }

/-- Reads the section on signatures. -/
def readSignatures (path : List Step) : Option Value → Reader Signatures :=
  readSection path {} fun at_ get? => do
    let enabled : Text := "enabled"
    let directories : Text := "sig_dirs"
    let collapse : Text := "collapse_generics"
    pure {
      enabled := ← readBool (at_ enabled) false (get? enabled)
      directories := ← readList (at_ directories) textItem ({} : Signatures).directories
        (get? directories)
      collapse := ← readBool (at_ collapse) false (get? collapse) }

/-- Reads all sections.  The section on signatures has a second name. -/
def readAll (path : List Step) : Option Value → Reader Settings :=
  readSection path {} fun at_ get? => do
    let part (key : Text) : List Step × Option Value := (at_ key, get? key)
    let emit := part "emit"
    let doc := part "doc"
    let methods := part "methods"
    let inference := part "inference"
    let filter := part "filter"
    let (signaturesKey, signatures) := eitherKey get? "signatures" "rbs"
    pure {
      emit := ← readEmit emit.1 emit.2
      doc := ← readDoc doc.1 doc.2
      methods := ← readMethods methods.1 methods.2
      inference := ← readInference inference.1 inference.2
      filter := ← readFilter filter.1 filter.2
      signatures := ← readSignatures (at_ signaturesKey) signatures }

/-- What a reader makes of a value: its result, or all faults if there are any. -/
def settle {α : Type} (read : Option Value → Reader α) (v : Value) : Except (List Fault) α :=
  match (read (some v)).run [] with
  | (a, []) => .ok a
  | (_, faults) => .error faults

/-- The settings that a value describes. -/
def ofValue (v : Value) : Except (List Fault) Settings :=
  settle (readAll []) v

end RubyDoc.Settings
