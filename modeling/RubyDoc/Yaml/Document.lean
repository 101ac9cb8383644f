import RubyDoc.Yaml.Node.Reader
import RubyDoc.Yaml.Scalar
import RubyDoc.Yaml.Token.Lexer

/-!
# YAML documents

From a text to the data it describes.  Tags beyond those of plain data are refused.  A mapping may
take in the entries of others, which its own entries outweigh; of several entries with one key the
last one counts.
-/

namespace RubyDoc.Yaml

/-- The stem of the tags that the format itself defines. -/
def commonStem : Text := "tag:yaml.org,2002:"

/-- The types that a scalar may be tagged with, and the forms that they are read by. -/
def scalarTypes : List (Text × Form) :=
  [("null", .null), ("bool", .bool), ("int", .int), ("float", .float), ("str", .text),
    ("timestamp", .timestamp)]

/-- The value of a scalar. -/
def scalarValue (tagging : Tagging) (t : Text) : Except Trouble Value :=
  match tagging with
  | .byForm plain => (if plain then Form.ofText t else .text).valueOf t
  | .full tag =>
      match Text.after? commonStem tag with
      | none => .error .malformed
      | some type =>
          if type = Text.ofString "binary" then
            if t.all (·.code < 0x80) && spellsBytes 0 0 t then .ok (.other "bytes")
            else .error .malformed
          else (scalarTypes.lookup type).elim (.error .malformed) (·.valueOf t)

/-- Is the node the key under which mappings are merged in? -/
def isMergeKey : Node → Bool
  | .scalar (.byForm true) t => Form.ofText t = .merge
  | .scalar (.full tag) _ => Text.after? commonStem tag = some (Text.ofString "merge")
  | _ => false

/-- The text of a key that stands for a default value. -/
def defaultKey? : Node → Option Text
  | .scalar (.byForm true) t => if Form.ofText t = .value then some t else none
  | .scalar (.full tag) t =>
      if Text.after? commonStem tag = some (Text.ofString "value") then some t else none
  | _ => none

/-- Is the tagging that of a collection without a special type? -/
def Tagging.isPlain (tagging : Tagging) (type : Text) : Bool :=
  match tagging with
  | .byForm _ => true
  | .full tag => tag = commonStem ++ type

/-- Can a value be a key? -/
def isKey : Value → Bool
  | .list _ | .mapping _ => false
  | .other type => type ≠ "set"
  | _ => true

/-- Are two values the same key? -/
def sameKey : Value → Value → Bool
  | .text a, .text b => a = b
  | _, _ => false

/-- Puts an entry into a mapping. -/
def putEntry (entries : List (Value × Value)) (entry : Value × Value) : List (Value × Value) :=
  if entries.any fun e => sameKey e.1 entry.1 then
    entries.map fun e => if sameKey e.1 entry.1 then (e.1, entry.2) else e
  else entries ++ [entry]

mutual

/-- The value of a node. -/
def Node.value : Node → Except Trouble Value
  | .scalar tagging t => scalarValue tagging t
  | .sequence tagging items => do
      if tagging.isPlain "seq" then .ok (.list (← valuesOf items))
      else if tagging.isPlain "omap" || tagging.isPlain "pairs" then do
        .ok (.list (← pairsOf items))
      else .error .malformed
  | .mapping tagging entries => do
      let (merged, own) ← entriesOf entries
      if tagging.isPlain "map" then .ok (.mapping ((merged ++ own).foldl putEntry []))
      else if tagging.isPlain "set" then .ok (.other "set")
      else .error .malformed

/-- The values of nodes. -/
def valuesOf : List Node → Except Trouble (List Value)
  | [] => .ok []
  | n :: ns => do
      let v ← n.value
      .ok (v :: (← valuesOf ns))

/-- The values of mappings with one entry each. -/
def pairsOf : List Node → Except Trouble (List Value)
  | [] => .ok []
  | .mapping _ [(k, v)] :: ns => do
      let _ ← k.value
      let _ ← v.value
      .ok (.other "tuple" :: (← pairsOf ns))
  | _ :: _ => .error .malformed

/-- The entries that are merged in, and the own ones. -/
def entriesOf :
    List (Node × Node) → Except Trouble (List (Value × Value) × List (Value × Value))
  | [] => .ok ([], [])
  | (k, v) :: rest => do
      if isMergeKey k then
        let here ← mergedBy v
        let (merged, own) ← entriesOf rest
        .ok (here ++ merged, own)
      else
        let key ← match defaultKey? k with
          | some t => .ok (.text t)
          | none => k.value
        if isKey key then
          let value ← v.value
          let (merged, own) ← entriesOf rest
          .ok (merged, (key, value) :: own)
        else .error .malformed

/-- The entries that a node contributes to the mapping it is merged into. -/
def mergedBy : Node → Except Trouble (List (Value × Value))
  | .mapping _ entries => do
      let (merged, own) ← entriesOf entries
      .ok (merged ++ own)
  | .sequence _ items => mergedByAll items
  | .scalar _ _ => .error .malformed

/-- The entries of mappings that are merged in together; earlier ones outweigh later ones. -/
def mergedByAll : List Node → Except Trouble (List (Value × Value))
  | [] => .ok []
  | .mapping _ entries :: rest => do
      let (merged, own) ← entriesOf entries
      .ok ((← mergedByAll rest) ++ merged ++ own)
  | _ :: _ => .error .malformed

end

/-- The data that a text describes.  A text without a document describes nothing. -/
def read (t : Text) : Except Trouble Value :=
  match (Token.scan t).bind Node.ofTokens? with
  | none => .error .malformed
  | some none => .ok .null
  | some (some n) => n.value

end RubyDoc.Yaml
