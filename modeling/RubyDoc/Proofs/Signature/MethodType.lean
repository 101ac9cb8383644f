import RubyDoc.Proofs.Signature.Overload
import RubyDoc.Proofs.Signature.Parameter

/-!
# Method types are read back

A method type as it is declared, how it is spelled, and the signature that it stands for.  The text
is taken apart at its brackets and at the bar that begins a further overload.  On the text of a
well-formed method type each of these finds the part that was spelled there, so that only the names
that are not found in their parameters are missing (`ofMethodType_render_asRead`).
-/

namespace RubyDoc.Signature

open Text

/-! ## Method types -/

/-- A method type: what stands in its square brackets, the parameters, what stands in the braces of
its block with a mark where that is optional, and the result. -/
structure MethodType where
  typeParameters : Option Text := none
  parameters : List Param := []
  block : Option (Bool × Text) := none
  result : Text
  deriving DecidableEq, Repr

namespace MethodType

/-- Type parameters as they are spelled. -/
def renderTypeParameters : Option Text → Text
  | none => []
  | some content => between '[' ']' content ++ [.char ' ']

/-- A block as it is spelled. -/
def renderBlock : Option (Bool × Text) → Text
  | none => []
  | some (isOptional, content) =>
      optionalMark isOptional ++ (between '\x7b' '\x7d' content ++ [.char ' '])

/-- An arrow and the result behind it. -/
def renderResult (result : Text) : Text :=
  Text.ofString "->" ++ .char ' ' :: result

/-- What stands between the parentheses. -/
def renderParameters (ps : List Param) : Text :=
  Text.join ", " (ps.map Param.render)

/-- How a method type is spelled, but for its type parameters. -/
def renderBody (m : MethodType) : Text :=
  between '(' ')' (renderParameters m.parameters) ++
    (.char ' ' :: (renderBlock m.block ++ renderResult m.result))

/-- How a method type is spelled. -/
def render (m : MethodType) : Text :=
  renderTypeParameters m.typeParameters ++ m.renderBody

/-- The signature that a method type stands for.  Of several rest parameters the last one counts. -/
def signature (collapse : Bool) (m : MethodType) : Signature where
  returnType := docType collapse m.result
  paramTypes := (m.parameters.filterMap Param.named?).map fun e => (e.1, docType collapse e.2)
  restElement := (m.parameters.filterMap Param.element?).getLast?.map (docType collapse)
  restValue := (m.parameters.filterMap Param.value?).getLast?.map (docType collapse)

/-- A method type as it is read. -/
def asRead (m : MethodType) : MethodType :=
  { m with parameters := m.parameters.map Param.asRead }

/-- The parts are what they should be, no two parameters are documented by one name, and a bar in
the result stands in brackets or quotes. -/
structure WellFormed (m : MethodType) : Prop where
  typeParameters : ∀ content ∈ m.typeParameters, Closed [] content
  parameters : ∀ p ∈ m.parameters, p.WellFormed
  names : ((m.parameters.filterMap Param.named?).map Prod.fst).Nodup
  block : ∀ b ∈ m.block, Closed [] b.2
  result : IsType m.result
  bars : Closed [.char '|'] m.result

end MethodType

/-! ## Parts of a method type -/

section Parts

variable {o c : Char} {inner rest : Text}

/-- What brackets enclose, and what follows them. -/
theorem enclosed?_between (ho : isOpening (.char o)) (hc : isClosing (.char c))
    (h : Closed [] inner) (rest : Text) :
    enclosed? [.char o] (between o c inner ++ rest) = some (inner, trim rest) := by
  have hstart : startsWith (between o c inner ++ rest) [.char o] :=
    startsWith_iff.2 ⟨inner ++ .char c :: rest, by simp [between]⟩
  have hclosing := closing?_bracket ho hc h rest
  have htext : between o c inner ++ rest = .char o :: (inner ++ .char c :: rest) := by
    simp [between]
  rw [enclosed?, if_pos hstart, htext, hclosing]
  simp

theorem enclosed?_eq_none {t : Text} {s : Sym} (h : t.head? ≠ some s) : enclosed? [s] t = none := by
  rw [enclosed?, if_neg fun hstart => h (startsWith_singleton.1 hstart)]

theorem afterTypeParameters_append {typeParameters : Option Text} {t : Text}
    (h : ∀ content ∈ typeParameters, Closed [] content) (ht : IsTrimmed t)
    (hhead : t.head? ≠ some (.char '[')) :
    afterTypeParameters (MethodType.renderTypeParameters typeParameters ++ t) = t := by
  cases typeParameters with
  | none =>
      show ((enclosed? [.char '['] t).map Prod.snd).getD t = t
      rw [enclosed?_eq_none hhead]
      rfl
  | some content =>
      have henclosed := enclosed?_between (o := '[') (c := ']') rfl rfl (h content rfl)
        ([.char ' '] ++ t)
      rw [trim_append_left (by decide), ht.trim_eq] at henclosed
      rw [MethodType.renderTypeParameters, List.append_assoc, afterTypeParameters,
        show enclosed? (Text.ofString "[") _ = some (content, t) from henclosed]
      rfl

theorem MethodType.isTrimmed_renderBlock_append {block : Option (Bool × Text)} {t : Text}
    (ht : IsTrimmed t) : IsTrimmed (renderBlock block ++ t) := by
  cases block with
  | none => exact ht
  | some b =>
      have hbody := (IsTrimmed.singleton (s := .char '\x7b') rfl).append ht
        (b.2 ++ [.char '\x7d', .char ' '])
      have hall := isTrimmed_optionalMark hbody b.1
      simpa [renderBlock, between] using hall

theorem afterBlock_append {block : Option (Bool × Text)} {t : Text}
    (h : ∀ b ∈ block, Closed [] b.2) (ht : IsTrimmed t)
    (hhead : ∀ s ∈ t.head?, s ∉ [Sym.char '?', .char '\x7b']) :
    afterBlock (MethodType.renderBlock block ++ t) = t := by
  cases block with
  | none =>
      have hmark : after? (Text.ofString "?") t = none :=
        after?_eq_none_of_head (fun h => hhead _ h (by decide)) []
      have hbrace : ¬ startsWith t (Text.ofString "\x7b") := fun hstart =>
        hhead _ (startsWith_singleton.1 hstart) (by decide)
      rw [MethodType.renderBlock, List.nil_append, afterBlock, hmark]
      exact if_neg hbrace
  | some b =>
      obtain ⟨isOptional, content⟩ := b
      have hbody : IsTrimmed (MethodType.renderBlock (some (false, content)) ++ t) :=
        MethodType.isTrimmed_renderBlock_append ht
      have henclosed := enclosed?_between (o := '\x7b') (c := '\x7d') rfl rfl
        (h (isOptional, content) rfl) ([.char ' '] ++ t)
      have htext : MethodType.renderBlock (some (isOptional, content)) ++ t =
          optionalMark isOptional ++ (MethodType.renderBlock (some (false, content)) ++ t) := by
        simp [MethodType.renderBlock, optionalMark]
      have hplain : between '\x7b' '\x7d' content ++ ([.char ' '] ++ t) =
          MethodType.renderBlock (some (false, content)) ++ t := by
        simp [MethodType.renderBlock, optionalMark]
      rw [trim_append_left (by decide), ht.trim_eq, hplain] at henclosed
      have hstart : (MethodType.renderBlock (some (false, content)) ++ t).head? =
          some (.char '\x7b') := rfl
      -- The mark is taken off before the brace is looked for.
      generalize MethodType.renderBlock (some (false, content)) ++ t = body at *
      have hmark : ((after? (Text.ofString "?") (optionalMark isOptional ++ body)).map trim).getD
          (optionalMark isOptional ++ body) = body := by
        cases isOptional with
        | true => exact hbody.trim_eq
        | false =>
            have hnone : after? [.char '?'] body = none :=
              after?_eq_none_of_head (by rw [hstart]; decide) []
            show ((after? [.char '?'] body).map trim).getD body = body
            rw [hnone]
            rfl
      have hbrace : startsWith body (Text.ofString "\x7b") := startsWith_singleton.2 hstart
      have hcut : enclosed? (Text.ofString "\x7b") body = some (content, t) := henclosed
      rw [htext, afterBlock, hmark, if_pos hbrace, hcut]
      rfl

theorem resultType_renderResult {result : Text} (h : IsTrimmed result) :
    resultType (MethodType.renderResult result) = result := by
  rw [resultType, MethodType.renderResult, after?_append, Option.map_some, Option.getD_some,
    ← List.singleton_append, trim_append_left (by decide), h.trim_eq]

end Parts

/-! ## The text of a method type -/

namespace MethodType

theorem closed_renderParameters {ps : List Param} (h : ∀ p ∈ ps, p.WellFormed) :
    Closed [] (renderParameters ps) := by
  refine .join (.of_notMem (by decide)) fun t ht => ?_
  obtain ⟨p, hp, rfl⟩ := List.mem_map.1 ht
  exact (Param.closed_render (h p hp)).mono (List.nil_subset _)

/-- The parameters are parted by commas; where there are none, an empty text is passed over. -/
theorem foldl_addParameter_parts (f : Text → Text) (sig : Signature) {ps : List Param}
    (h : ∀ p ∈ ps, p.WellFormed) :
    (parts (.char ',') (renderParameters ps)).foldl (addParameter f) sig =
      (ps.map Param.render).foldl (addParameter f) sig := by
  cases ps with
  | nil => rfl
  | cons p ps =>
      have hparts := parts_join [] [.char ' '] rfl (by decide)
        (isPlain_of_notMem (s := .char ',') (by decide)) (by decide)
        (List.cons_ne_nil p.render (ps.map Param.render)) fun t ht => ?_
      · exact congrArg (List.foldl (addParameter f) sig) hparts
      · obtain ⟨q, hq, rfl⟩ : ∃ q ∈ p :: ps, q.render = t := List.mem_map.1 ht
        exact ⟨Param.closed_render (h q hq), (Param.isTrimmed_render (h q hq)).trim_eq⟩

theorem isTrimmed_renderResult {result : Text} (h : IsTrimmed result) :
    IsTrimmed (renderResult result) :=
  (IsTrimmed.singleton (s := .char '-') rfl).append h [.char '>', .char ' ']

theorem closed_renderTypeParameters {typeParameters : Option Text}
    (h : ∀ content ∈ typeParameters, Closed [] content) :
    Closed [.char '|'] (renderTypeParameters typeParameters) := by
  cases typeParameters with
  | none => exact .nil
  | some content =>
      exact (Closed.between rfl rfl (h content rfl)).append (.of_isBlank (by decide) (by decide))

theorem closed_renderBlock {block : Option (Bool × Text)} (h : ∀ b ∈ block, Closed [] b.2) :
    Closed [.char '|'] (renderBlock block) := by
  cases block with
  | none => exact .nil
  | some b =>
      have hspace : Closed [.char '|'] [.char ' '] := .of_isBlank (by decide) (by decide)
      exact (closed_optionalMark (by decide) b.1).append
        ((Closed.between rfl rfl (h b rfl)).append hspace)

section Render

variable {m : MethodType}

theorem isTrimmed_renderBody (h : m.WellFormed) : IsTrimmed m.renderBody := by
  have hall := (IsTrimmed.singleton (s := .char '(') rfl).append
    (isTrimmed_renderResult h.result.isTrimmed)
    (renderParameters m.parameters ++ .char ')' :: .char ' ' :: renderBlock m.block)
  simpa [renderBody, between] using hall

theorem isTrimmed_render (h : m.WellFormed) : IsTrimmed m.render := by
  have hbody := isTrimmed_renderBody h
  rw [render]
  cases m.typeParameters with
  | none => exact hbody
  | some content =>
      have hall := (IsTrimmed.singleton (s := .char '[') rfl).append hbody
        (content ++ [.char ']', .char ' '])
      simpa [renderTypeParameters, between] using hall

theorem firstOverload_render (h : m.WellFormed) {later : List Text}
    (hlater : ∀ t ∈ later, opensOverload t) :
    firstOverload (Text.join " | " (m.render :: later)) = m.render := by
  have hspace : Closed [.char '|'] [.char ' '] := .of_isBlank (by decide) (by decide)
  have hbefore : Closed [.char '|'] (renderTypeParameters m.typeParameters ++
      (between '(' ')' (renderParameters m.parameters) ++ ([.char ' '] ++ renderBlock m.block))) :=
    (closed_renderTypeParameters h.typeParameters).append
      ((Closed.between rfl rfl (closed_renderParameters h.parameters)).append
        (hspace.append (closed_renderBlock h.block)))
  have hrender : m.render = renderTypeParameters m.typeParameters ++
      (between '(' ')' (renderParameters m.parameters) ++ ([.char ' '] ++ renderBlock m.block)) ++
        (Text.ofString "->" ++ .char ' ' :: m.result) := by
    simp [render, renderBody, renderResult]
  have htrim := isTrimmed_render h
  rw [hrender] at htrim ⊢
  exact firstOverload_join hbefore (hspace.append h.bars) htrim hlater

/-- Whatever overloads follow it, a method type is read as it stands, apart from names that are
taken for a part of a type. -/
theorem ofMethodType_render_asRead (collapse : Bool) (h : m.WellFormed) {later : List Text}
    (hlater : ∀ t ∈ later, opensOverload t) :
    ofMethodType collapse (Text.join " | " (m.render :: later)) = m.asRead.signature collapse := by
  -- Every reader takes its part off the beginning of what the one before it has left.
  have hresult := isTrimmed_renderResult h.result.isTrimmed
  have hnames := h.names.sublist ((sublist_filterMap_named? m.parameters).map Prod.fst)
  have hafter : afterTypeParameters m.render = m.renderBody :=
    afterTypeParameters_append h.typeParameters (isTrimmed_renderBody h)
      (by simp [renderBody, between])
  have hparams : parameterList m.renderBody =
      (renderParameters m.parameters, renderBlock m.block ++ renderResult m.result) := by
    have henclosed := enclosed?_between (o := '(') (c := ')') rfl rfl
      (closed_renderParameters h.parameters)
      ([.char ' '] ++ (renderBlock m.block ++ renderResult m.result))
    rw [trim_append_left (by decide), (isTrimmed_renderBlock_append hresult).trim_eq] at henclosed
    exact congrArg (Option.getD · _) henclosed
  have hblock : afterBlock (renderBlock m.block ++ renderResult m.result) = renderResult m.result :=
    afterBlock_append h.block hresult fun s hs => by
      rw [← Option.some.inj hs]
      decide
  rw [ofMethodType, firstOverload_render h hlater, hafter, hparams]
  dsimp only
  rw [hblock, resultType_renderResult h.result.isTrimmed, foldl_addParameter_parts _ _ h.parameters,
    foldl_addParameter _ _ h.parameters hnames]
  rfl

/-- Where every parameter is legible, a method type is read back: the result, the named positional
parameters and the keywords in their order, the rest parameters, and nothing of the block or of the
overloads that follow. -/
theorem ofMethodType_render (collapse : Bool) (h : m.WellFormed)
    (hlegible : ∀ p ∈ m.parameters, p.Legible) {later : List Text}
    (hlater : ∀ t ∈ later, opensOverload t) :
    ofMethodType collapse (Text.join " | " (m.render :: later)) = m.signature collapse := by
  have hparameters : m.parameters.map Param.asRead = m.parameters := by
    rw [List.map_congr_left fun p hp => Param.asRead_of_legible (hlegible p hp), List.map_id']
  have hasRead : m.asRead = m := by
    rw [asRead, hparameters]
  rw [ofMethodType_render_asRead collapse h hlater, hasRead]

/-- The types of named parameters are read back exactly where these parameters are legible. -/
theorem paramTypes_render_iff (collapse : Bool) (h : m.WellFormed) {later : List Text}
    (hlater : ∀ t ∈ later, opensOverload t) :
    (ofMethodType collapse (Text.join " | " (m.render :: later))).paramTypes =
        (m.signature collapse).paramTypes ↔
      ∀ p ∈ m.parameters, p.named?.isSome → p.Legible := by
  rw [ofMethodType_render_asRead collapse h hlater]
  simp only [signature, asRead]
  constructor
  · intro htypes
    have hlength := congrArg List.length htypes
    rw [List.length_map, List.length_map] at hlength
    exact legible_of_length_eq hlength
  · intro hlegible
    rw [filterMap_named?_asRead hlegible]

end Render

/-- A method type with all kinds of parts. -/
def finder : MethodType where
  typeParameters := some "T"
  parameters :=
    [.positional false "Integer" (some "id"), .positional true "String?" none,
      .rest "T" (some "more"), .keyword true "all" "bool", .keywordRest "untyped" none]
  block := some (true, " (T) -> void ")
  result := "User?"

theorem wellFormed_finder : finder.WellFormed where
  typeParameters := fun content hcontent => by
    rw [← Option.some.inj hcontent]
    exact .of_notMem (by decide)
  parameters := by
    have hword {w : Text} (hne : w ≠ []) (h : ∀ s ∈ w, s.isWord) : IsType w := .of_word hne h
    have hoptional : IsType (Text.ofString "String?") :=
      .optional (t := "String") (w := []) (hword (by decide) (by decide)) rfl
    have hlabel : IsLabel (Text.ofString "all") := ⟨.char 'a', Text.ofString "ll", rfl, by decide⟩
    simp only [finder, List.forall_mem_cons, Param.WellFormed, Option.mem_def,
      Option.some.injEq, forall_eq']
    exact ⟨⟨hword (by decide) (by decide), by decide⟩, ⟨hoptional, by simp⟩,
      ⟨hword (by decide) (by decide), by decide⟩, ⟨hword (by decide) (by decide), hlabel⟩,
      ⟨hword (by decide) (by decide), by simp⟩, by simp⟩
  names := by decide
  block := fun b hb => by
    rw [← Option.some.inj hb]
    exact .append (t := Text.ofString " ") (.of_notMem (by decide))
      (.append (t := between '(' ')' "T") (u := " -> void ")
        (.between rfl rfl (.of_notMem (by decide))) (.of_notMem (by decide)))
  result := .optional (t := "User") (w := []) (.of_word (by decide) (by decide)) rfl
  bars := .of_notMem (by decide)

theorem ofMethodType_render_finder :
    finder.render = Text.ofString
      "[T] (Integer id, ?String?, *T more, ?all: bool, **untyped) ?\x7b (T) -> void \x7d -> User?" ∧
      finder.WellFormed ∧ (∀ p ∈ finder.parameters, p.Legible) ∧
      (∀ t ∈ [Text.ofString "(String) -> nil"], opensOverload t) ∧
      ofMethodType false (Text.join " | " [finder.render, "(String) -> nil"]) =
        finder.signature false :=
  have hlegible : ∀ p ∈ finder.parameters, p.Legible := by decide
  have hlater : ∀ t ∈ [Text.ofString "(String) -> nil"], opensOverload t := by decide
  ⟨by decide, wellFormed_finder, hlegible, hlater,
    ofMethodType_render false wellFormed_finder hlegible hlater⟩

/-- A parameter whose type is the symbol of an operator. -/
def operatorMethod : MethodType where
  parameters := [.positional false ":&" (some "op")]
  result := "void"

theorem wellFormed_operatorMethod : operatorMethod.WellFormed where
  typeParameters := by simp [operatorMethod]
  parameters := by
    have hsymbol : IsType (Text.ofString ":&") :=
      .symbol (show Text.ofString "&" ≠ [] by decide) (by decide) (.of_notMem (by decide))
    simp only [operatorMethod, List.forall_mem_singleton, Param.WellFormed, Option.mem_def,
      Option.some.injEq, forall_eq']
    exact ⟨hsymbol, by decide⟩
  names := by decide
  block := by simp [operatorMethod]
  result := .of_word (by decide) (by decide)
  bars := .of_notMem (by decide)

/-- The name behind the symbol of an operator is lost. -/
theorem ofMethodType_render_loses_name :
    operatorMethod.WellFormed ∧ operatorMethod.render = Text.ofString "(:& op) -> void" ∧
      (operatorMethod.signature false).paramTypes = [(Text.ofString "op", Text.ofString "Object")] ∧
      (ofMethodType false operatorMethod.render).paramTypes = [] := by
  have hobject : docType false (Text.ofString ":&") = Text.ofString "Object" := by
    rw [docType_eq]
    decide
  refine ⟨wellFormed_operatorMethod, by decide, ?_, by decide⟩
  simp [signature, operatorMethod, Param.named?, hobject]

end MethodType

end RubyDoc.Signature
