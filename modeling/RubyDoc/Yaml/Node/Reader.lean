import RubyDoc.Yaml.Node

/-!
# From YAML tokens to nodes

One function for each kind of collection, block and flow.  An entry may lack its key or its value,
which is then the empty node.  Inside a flow sequence a lone pair is a mapping.  An anchored
collection that refers to itself counts as empty there.
-/

namespace RubyDoc.Yaml

/-- What is left to read, and what names stand for. -/
structure Reading where
  tokens : List Token
  anchors : List (Text × Node) := []
  /-- What the handles of tags stand for. -/
  handles : List (Text × Text) := []

namespace Reading

/-- The next token. -/
def peek? (r : Reading) : Option Token :=
  r.tokens.head?

/-- The next token passed over. -/
def pass (r : Reading) : Reading :=
  { r with tokens := r.tokens.tail }

/-- Is the next token one of `ts`, or is none left? -/
def atEndOr (ts : List Token) (r : Reading) : Bool :=
  r.peek?.all ts.contains

/-- Reads an anchor; a name must not be given twice. -/
def anchor? (r : Reading) : Option (Option Text × Reading) :=
  match r.peek? with
  | some (.anchor name) => some (some name, r.pass)
  | _ => some (none, r)

/-- Reads a tag and puts it in full; none if its handle is unknown. -/
def tag? (r : Reading) : Option (Option Text × Reading) :=
  match r.peek? with
  | some (.tag none suffix) => some (some suffix, r.pass)
  | some (.tag (some handle) suffix) =>
      (r.handles.lookup handle).map fun stem => (some (stem ++ suffix), r.pass)
  | _ => some (none, r)

/-- Reads what may stand before a node: an anchor and a tag, in either order. -/
def properties? (r : Reading) : Option (Option Text × Option Text × Reading) := do
  let (anchor, r) ← r.anchor?
  let (tag, r) ← r.tag?
  if anchor.isNone then
    let (anchor, r) ← r.anchor?
    some (anchor, tag, r)
  else some (anchor, tag, r)

/-- What a tag that is written says; a lone exclamation mark says as little as no tag. -/
def tagging (tag : Option Text) (plain : Bool) : Tagging :=
  match tag with
  | none => .byForm plain
  | some t => if t = Text.ofString "!" then .byForm true else .full t

/-- Names a node; the latest node of a name counts. -/
def name (anchor : Option Text) (n : Node) (r : Reading) : Reading :=
  match anchor with
  | some a => { r with anchors := (a, n) :: r.anchors }
  | none => r

/-- Is the name of an anchor new? -/
def isNew (anchor : Option Text) (r : Reading) : Bool :=
  anchor.all fun a => (r.anchors.lookup a).isNone

end Reading

/-- What may begin a node at a place: block collections, and entries without indentation. -/
structure Place where
  block : Bool
  indentless : Bool := false

mutual

/-- Reads a node. -/
def readNode : (fuel : Nat) → Place → Reading → Option (Node × Reading)
  | 0, _, _ => none
  | fuel + 1, place, r =>
      match r.peek? with
      | some (.alias name) => (r.anchors.lookup name).map fun n => (n, r.pass)
      | _ => do
          let (anchor, tag, r) ← r.properties?
          if !r.isNew anchor then none
          else
            let sequence (items : List Node) : Node := .sequence (Reading.tagging tag false) items
            let mapping (entries : List (Node × Node)) : Node :=
              .mapping (Reading.tagging tag false) entries
            let inSequence := r.name anchor (sequence [])
            let inMapping := r.name anchor (mapping [])
            let sequenceOf (found : List Node × Reading) : Node × Reading :=
              (sequence found.1, found.2.name anchor (sequence found.1))
            let mappingOf (found : List (Node × Node) × Reading) : Node × Reading :=
              (mapping found.1, found.2.name anchor (mapping found.1))
            match r.peek? with
            | some .blockEntry =>
                if place.indentless then (readIndentless fuel inSequence).map sequenceOf
                else readEmpty anchor tag r
            | some (.scalar t plain) =>
                let n := Node.scalar (Reading.tagging tag plain) t
                some (n, r.pass.name anchor n)
            | some .flowSequence => (readFlowItems fuel true inSequence.pass).map sequenceOf
            | some .flowMapping => (readFlowEntries fuel true inMapping.pass).map mappingOf
            | some .blockSequence =>
                if place.block then (readItems fuel inSequence.pass).map sequenceOf
                else readEmpty anchor tag r
            | some .blockMapping =>
                if place.block then (readEntries fuel inMapping.pass).map mappingOf
                else readEmpty anchor tag r
            | _ => readEmpty anchor tag r

/-- The node where only an anchor or a tag is written. -/
def readEmpty (anchor tag : Option Text) (r : Reading) : Option (Node × Reading) :=
  if anchor.isNone && tag.isNone then none
  else
    let n := Node.scalar (Reading.tagging tag true) []
    some (n, r.name anchor n)

/-- Reads a node, or none at all if one of `ends` comes next. -/
def readOptional : (fuel : Nat) → (ends : List Token) → Place → Reading → Option (Node × Reading)
  | 0, _, _, _ => none
  | fuel + 1, ends, place, r =>
      if r.atEndOr ends then some (.empty, r) else readNode fuel place r

/-- Reads the items of a block sequence up to its end. -/
def readItems : (fuel : Nat) → Reading → Option (List Node × Reading)
  | 0, _ => none
  | fuel + 1, r =>
      match r.peek? with
      | some .blockEntry => do
          let (n, r) ← readOptional fuel [.blockEntry, .blockEnd] ⟨true, false⟩ r.pass
          let (more, r) ← readItems fuel r
          some (n :: more, r)
      | some .blockEnd => some ([], r.pass)
      | _ => none

/-- Reads the items of a sequence that is indented like the key it belongs to. -/
def readIndentless : (fuel : Nat) → Reading → Option (List Node × Reading)
  | 0, _ => none
  | fuel + 1, r =>
      match r.peek? with
      | some .blockEntry => do
          let (n, r) ← readOptional fuel [.blockEntry, .key, .value, .blockEnd] ⟨true, false⟩ r.pass
          let (more, r) ← readIndentless fuel r
          some (n :: more, r)
      | _ => some ([], r)

/-- Reads the entries of a block mapping up to its end. -/
def readEntries : (fuel : Nat) → Reading → Option (List (Node × Node) × Reading)
  | 0, _ => none
  | fuel + 1, r =>
      match r.peek? with
      | some .key => do
          let (k, r) ← readOptional fuel [.key, .value, .blockEnd] ⟨true, true⟩ r.pass
          let (v, r) ← readValue fuel [.key, .value, .blockEnd] ⟨true, true⟩ r
          let (more, r) ← readEntries fuel r
          some ((k, v) :: more, r)
      | some .blockEnd => some ([], r.pass)
      | _ => none

/-- Reads the value of an entry, which may be missing. -/
def readValue : (fuel : Nat) → (ends : List Token) → Place → Reading → Option (Node × Reading)
  | 0, _, _, _ => none
  | fuel + 1, ends, place, r =>
      match r.peek? with
      | some .value => readOptional fuel ends place r.pass
      | _ => some (.empty, r)

/-- Reads the items of a flow sequence up to its end. -/
def readFlowItems : (fuel : Nat) → (first : Bool) → Reading → Option (List Node × Reading)
  | 0, _, _ => none
  | fuel + 1, first, r =>
      if r.peek? = some .flowSequenceEnd then some ([], r.pass)
      else do
        let r ← if first then some r else if r.peek? = some .flowEntry then some r.pass else none
        match r.peek? with
        | some .flowSequenceEnd => some ([], r.pass)
        | some .key => do
            let ends : List Token := [.flowEntry, .flowSequenceEnd]
            let (k, r) ← readOptional fuel (.value :: ends) ⟨false, false⟩ r.pass
            let (v, r) ← readValue fuel ends ⟨false, false⟩ r
            let (more, r) ← readFlowItems fuel false r
            some (.mapping (.byForm false) [(k, v)] :: more, r)
        | _ => do
            let (n, r) ← readNode fuel ⟨false, false⟩ r
            let (more, r) ← readFlowItems fuel false r
            some (n :: more, r)

/-- Reads the entries of a flow mapping up to its end. -/
def readFlowEntries : (fuel : Nat) → (first : Bool) → Reading →
    Option (List (Node × Node) × Reading)
  | 0, _, _ => none
  | fuel + 1, first, r =>
      if r.peek? = some .flowMappingEnd then some ([], r.pass)
      else do
        let r ← if first then some r else if r.peek? = some .flowEntry then some r.pass else none
        match r.peek? with
        | some .flowMappingEnd => some ([], r.pass)
        | some .key => do
            let ends : List Token := [.flowEntry, .flowMappingEnd]
            let (k, r) ← readOptional fuel (.value :: ends) ⟨false, false⟩ r.pass
            let (v, r) ← readValue fuel ends ⟨false, false⟩ r
            let (more, r) ← readFlowEntries fuel false r
            some ((k, v) :: more, r)
        | _ => do
            let (k, r) ← readNode fuel ⟨false, false⟩ r
            let (more, r) ← readFlowEntries fuel false r
            some ((k, .empty) :: more, r)

end

/-! ## Documents -/

/-- The handles that need no directive. -/
def knownHandles : List (Text × Text) :=
  [("!", "!"), ("!!", "tag:yaml.org,2002:")]

/-- Reads the directives before a document: at most one version, which must be compatible, and each
handle once. -/
def readDirectives : (versioned : Bool) → (handles : List (Text × Text)) → List Token →
    Option (List (Text × Text) × List Token)
  | versioned, handles, .directive d :: rest =>
      match d with
      | .version major =>
          let isOne := (major.dropWhile (· = .char '0')) = Text.ofString "1"
          if versioned || !isOne then none else readDirectives true handles rest
      | .handle handle stem =>
          if (handles.lookup handle).isSome then none
          else readDirectives versioned (handles ++ [(handle, stem)]) rest
      | .other => readDirectives versioned handles rest
  | _, handles, tokens => some (handles ++ knownHandles, tokens)

/-- Reads the content of a document, which may be empty. -/
def readContent (fuel : Nat) (r : Reading) : Option (Node × Reading) :=
  match r.peek? with
  | none | some (.directive _) | some .documentStart | some .documentEnd => some (.empty, r)
  | _ => readNode fuel ⟨true, false⟩ r

/-- Passes over markers that end documents. -/
def afterEnds (tokens : List Token) : List Token :=
  tokens.dropWhile (· = .documentEnd)

/-- The only document that the tokens make up; there may be none at all. -/
def Node.ofTokens? (tokens : List Token) : Option (Option Node) := do
  let fuel := 4 * tokens.length + 8
  let begun := match tokens with
    | .directive _ :: _ | .documentStart :: _ => true
    | _ => false
  if tokens.isEmpty then some none
  else
    let (n, r) ←
      if begun then do
        let (handles, rest) ← readDirectives false [] tokens
        match rest with
        | .documentStart :: rest => readContent fuel { tokens := rest, handles }
        | _ => none
      else readNode fuel ⟨true, false⟩ { tokens, handles := knownHandles }
    if (afterEnds r.tokens).isEmpty then some (some n) else none

end RubyDoc.Yaml
