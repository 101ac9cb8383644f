import RubyDoc.Proofs.Signature.Literal.Cut
import RubyDoc.Proofs.Signature.Literal.Index

/-!
# Which contents of literals do not matter

Opaque contents do not matter wherever literals occur as types.  A content that does not matter in
two places is opaque: as the type of a parameter it shows that its brackets have partners, since a
bracket without one ends the parameters or leaves them open, and in a result outside brackets it
shows that no bar in it opens an overload, since that bar would end the method type.
-/

namespace RubyDoc.Signature

open Text

/-! ## Exactness -/

/-- A method with a literal as the type of its parameter. -/
def taking (q : Sym) (content name : Text) : MethodType where
  parameters := [.positional false (TypeExpr.string q content).render (some name)]
  result := "void"

/-- The intersection of a literal and a class. -/
def andComparable (q : Sym) (content : Text) : TypeExpr :=
  .intersection [.string q content, .name false "Comparable"]

/-- A method whose result is a literal outside brackets and one more type. -/
def giving (q : Sym) (content : Text) : MethodType where
  result := (andComparable q content).render

section Exact

variable {q : Sym} {content name : Text}

theorem render_taking (q : Sym) (content name : Text) :
    (taking q content name).render =
      .char '(' :: (q :: content ++ q :: .char ' ' :: (name ++ ") -> void")) := by
  simp [taking, MethodType.render, MethodType.renderTypeParameters, MethodType.renderBody,
    MethodType.renderParameters, MethodType.renderBlock, MethodType.renderResult, between,
    Param.render, optionalMark, declaration, Text.join, TypeExpr.render, Text.ofString]

theorem render_giving (q : Sym) (content : Text) :
    (giving q content).render =
      Text.ofString "() -> " ++ q :: (content ++ q :: " & Comparable") := by
  simp [giving, andComparable, MethodType.render, MethodType.renderTypeParameters,
    MethodType.renderBody, MethodType.renderParameters, MethodType.renderBlock,
    MethodType.renderResult, between, Text.join, TypeExpr.render, TypeExpr.renderAll, anchoredPath,
    Text.ofString]

theorem isPath_word {word : Text} (h : word.head?.any (fun s => s.isWord && !s.isDigit))
    (hall : ∀ s ∈ word, isPathSym s) : IsPath word where
  head := by
    cases word with
    | nil => cases h
    | cons s rest => exact ⟨s, rest, rfl, by simpa using h⟩
  all := hall

theorem wellFormed_taking (hq : isQuote q) (hname : isParameterName name) :
    (taking q [] name).WellFormed where
  typeParameters := by simp [taking]
  parameters := List.forall_mem_singleton.2
    ⟨.string hq (List.forall_mem_nil _), fun n hn => by rwa [← Option.some.inj hn]⟩
  names := by simp [taking, Param.named?]
  block := by simp [taking]
  result := show IsType (Text.ofString "void") from .of_word (by decide) (by decide)
  bars := show Closed [.char '|'] (Text.ofString "void") from .of_notMem (by decide)

theorem legible_taking (hq : isQuote q) : ∀ p ∈ (taking q [] name).parameters, p.Legible := by
  simp only [isQuote, Bool.or_eq_true, decide_eq_true_eq] at hq
  refine List.forall_mem_singleton.2 fun _ => ?_
  rcases hq with rfl | rfl <;> decide

theorem spelled_taking (hq : isQuote q) : (taking q [] name).Spelled where
  result := ⟨.name false "void", .name (isPath_word (by decide) (by decide)), rfl⟩
  parameters := List.forall_mem_singleton.2
    ⟨.string q [], .string hq (List.forall_mem_nil _), rfl⟩

theorem valid_andComparable (hq : isQuote q) : (andComparable q []).Valid := by
  refine .intersection (List.cons_ne_nil _ _) ?_ ?_ id
  · simp only [List.forall_mem_cons]
    exact ⟨.string hq (List.forall_mem_nil _), .name (isPath_word (by decide) (by decide)),
      List.forall_mem_nil _⟩
  · simp only [List.forall_mem_cons]
    exact ⟨id, id, List.forall_mem_nil _⟩

theorem wellFormed_giving (hq : isQuote q) : (giving q []).WellFormed where
  typeParameters := by simp [giving]
  parameters := List.forall_mem_nil _
  names := List.nodup_nil
  block := by simp [giving]
  result := by
    have hstring : IsType (q :: ([] ++ [q])) := .string hq (List.forall_mem_nil _)
    have hcomparable : IsType (Text.ofString "Comparable") := .of_word (by decide) (by decide)
    have hspace : isBlank (Text.ofString " ") := by decide
    have hop : Sym.char '&' ∈ [Sym.char '|', .char '&'] := by decide
    exact hstring.joined hcomparable hspace hspace hop
  bars := (valid_andComparable hq).closed.mono
    (show [Sym.char '|'] ⊆ [.char '|', .char ','] by decide)

theorem spelled_giving (hq : isQuote q) : (giving q []).Spelled where
  result := ⟨andComparable q [], valid_andComparable hq, rfl⟩
  parameters := List.forall_mem_nil _

theorem isPlain_of_isParameterName (h : isParameterName name) : ∀ s ∈ name, IsPlain s :=
  fun s hs => isPlain_of_notMem fun hmem => by
    have hword := isWord_of_isParameterName h s hs
    rw [isWord_of_mem_delimiters hmem] at hword
    cases hword

/-- Where brackets stay open in the content, the bracket before it is not closed behind it. -/
theorem closingFrom?_behind {d : Int} (hq : isQuote q) (hname : isParameterName name) (hd : 1 < d) :
    closingFrom? d (q :: .char ' ' :: (name ++ ") -> void")) = none := by
  have hplain : ∀ s ∈ .char ' ' :: name, IsPlain s :=
    List.forall_mem_cons.2 ⟨isPlain_of_notMem (by decide), isPlain_of_isParameterName hname⟩
  have hresult : ∀ s ∈ Text.ofString " -> void", IsPlain s := fun s hs =>
    isPlain_of_notMem ((by decide : ∀ s ∈ Text.ofString " -> void", s ∉ delimiters) s hs)
  have hrest := closingFrom?_plain (d := d + -1) hresult []
  have hparenthesis : closingFrom? d (.char ')' :: " -> void") = none := by
    rw [closingFrom?_cons (by omega), bracketStep_of_closing (s := .char ')') rfl,
      ← List.append_nil (Text.ofString " -> void"), hrest]
    rfl
  rw [closingFrom?_quote hq, ← List.cons_append, closingFrom?_plain hplain,
    show Text.ofString ") -> void" = .char ')' :: " -> void" from rfl, hparenthesis]
  rfl

section Taking

variable {collapse : Bool} (hq : isQuote q) (hname : isParameterName name)
  (h : ofMethodType collapse (taking q content name).render =
    ofMethodType collapse (taking q [] name).render)

include hq hname h

/-- The name behind a literal stands in the parameters. -/
theorem length_le_of_taking :
    name.length ≤ (parameterList (afterTypeParameters (firstOverload
      (.char '(' :: (q :: content ++ q :: .char ' ' :: (name ++ ") -> void")))))).1.length := by
  have hnamed : (name, docType collapse (TypeExpr.string q []).render) ∈
      (ofMethodType collapse (taking q content name).render).paramTypes := by
    rw [h, MethodType.ofMethodType_render_single collapse (wellFormed_taking hq hname)
      (legible_taking hq)]
    exact List.mem_singleton_self _
  rw [← render_taking]
  exact length_le_of_mem_paramTypes hnamed

/-- No bracket in the literal ends the parameters, if the name is too long to stand in there. -/
theorem isNested_of_taking (hlong : content.length < name.length) : IsNested content := by
  have hle := length_le_of_taking hq hname h
  refine isNested_iff.2 (Option.eq_none_iff_forall_ne_some.2 fun k hclosing => ?_)
  obtain ⟨before, c, behind, rfl, rfl, -⟩ := exists_of_closingFrom? hclosing (Int.le_refl 1)
  have hend : closingFrom? 1 (q :: (before ++ c :: behind) ++
      q :: .char ' ' :: (name ++ ") -> void")) = some (before.length + 1) := by
    rw [List.cons_append, closingFrom?_quote hq, closingFrom?_append_of_some hclosing]
    rfl
  rw [parameterList_of_closing hend, List.length_take] at hle
  simp only [List.length_append, List.length_cons] at hle hlong
  omega

/-- No bracket in the literal leaves the parameters open. -/
theorem bracketDepth_of_taking (hnested : IsNested content) : bracketDepth content = 0 := by
  have hle := length_le_of_taking hq hname h
  by_contra hdepth
  have hpos := hnested content List.prefix_rfl
  have hopen (before : Text) (hbefore : before <+: content) : 1 ≤ 1 + bracketDepth before := by
    have hzero := hnested before hbefore
    omega
  have hnone : closingFrom? 1 (q :: content ++ q :: .char ' ' :: (name ++ ") -> void")) = none := by
    rw [List.cons_append, closingFrom?_quote hq, closingFrom?_nested hopen,
      closingFrom?_behind hq hname (by omega)]
    rfl
  rw [parameterList_of_open hnone, List.length_nil] at hle
  obtain rfl := List.length_eq_zero_iff.1 (Nat.le_zero.1 hle)
  cases hname

end Taking

/-- A bar that opens an overload ends the method type within the literal. -/
theorem firstOverload_giving (hq : isQuote q) {before behind : Text}
    (hcontent : content = before ++ .char '|' :: behind) (hdepth : bracketDepth before = 0)
    (hopens : opensOverload behind) :
    ∃ above, above <+: before ∧ firstOverload (giving q content).render =
      Text.ofString "() " ++ MethodType.renderResult (q :: trimRight above) := by
  have hblank := isBlank_of_mem_delimiters (mem_delimiters_of_quote hq)
  have hbehind := opensOverload_append hopens (q :: Text.ofString " & Comparable")
  have hzero : 0 + bracketDepth before = 0 := by rw [hdepth, Int.add_zero]
  obtain ⟨above, habove, hcut⟩ := exists_overloadFrom_bar hzero hbehind
  have htrimmed : IsTrimmed (Text.ofString "() -> " ++ [q]) :=
    (IsTrimmed.singleton (s := .char '(') rfl).append (.singleton hblank) ") -> "
  have hstart (t : Text) : overloadFrom 0 false (Text.ofString "() -> " ++ t) =
      Text.ofString "() -> " ++ overloadFrom 0 true t := rfl
  have htext : content ++ q :: Text.ofString " & Comparable" =
      before ++ .char '|' :: (behind ++ q :: Text.ofString " & Comparable") := by
    rw [hcontent, List.append_assoc, List.cons_append]
  refine ⟨above, habove, ?_⟩
  rw [firstOverload, render_giving, hstart, overloadFrom_quote hq, htext, hcut, List.append_cons,
    htrimmed.trim_append, ← List.append_cons]
  rfl

/-- The type behind a literal is found where no bar in the literal opens an overload. -/
theorem bars_of_giving {collapse : Bool} (hq : isQuote q) (hends : q ∉ content)
    (h : ofMethodType collapse (giving q content).render =
      ofMethodType collapse (giving q []).render) {before behind : Text}
    (hcontent : content = before ++ .char '|' :: behind) (hdepth : bracketDepth before = 0) :
    opensOverload behind = false := by
  refine Bool.eq_false_iff.2 fun hopens => ?_
  have hobject : (ofMethodType collapse (giving q []).render).returnType = "Object" := by
    rw [MethodType.ofMethodType_render_single collapse (wellFormed_giving hq)
      (List.forall_mem_nil _)]
    exact TypeExpr.docType_render collapse (valid_andComparable hq)
  -- Of the result only a literal is left that is not closed, and that is a string.
  obtain ⟨above, ⟨below, rfl⟩, hfirst⟩ := firstOverload_giving hq hcontent hdepth hopens
  have habove : q ∉ trimRight above := notMem_trimRight fun hmem => hends (by simp [hcontent, hmem])
  have htrimmed : IsTrimmed (q :: trimRight above) := by
    have hblank := isBlank_of_mem_delimiters (mem_delimiters_of_quote hq)
    have htrim : trim (q :: above) = q :: trimRight above :=
      IsTrimmed.trim_append (.singleton hblank) above
    rw [← htrim]
    exact isTrimmed_trim (by simp [htrim])
  have hstring : (ofMethodType collapse (giving q content).render).returnType =
      docType collapse (q :: trimRight above) := returnType_of_firstOverload htrimmed hfirst
  rw [h, hobject] at hstring
  rcases docType_unclosed collapse hq habove with hdoc | ⟨inner, hdoc⟩
  · rw [hdoc] at hstring
    exact absurd hstring (by decide)
  · have hlast := congrArg List.getLast? (hstring.trans hdoc)
    rw [List.getLast?_append_of_ne_nil _ (by decide)] at hlast
    exact absurd hlast (by decide)

variable {content' : Text}

/-- The contents of two literals in a common frame. -/
theorem requoted_frame {before behind : Text} (hbefore : IsUnquoted before)
    (hbehind : IsUnquoted behind) (h : IsLiteral q content) (h' : IsLiteral q content') :
    Requoted (before ++ q :: (content ++ q :: behind)) (before ++ q :: (content' ++ q :: behind)) :=
  (Requoted.of_isUnquoted hbefore).append (.literal h h' (.of_isUnquoted hbehind))

theorem requoted_taking (hname : isParameterName name) (h : IsLiteral q content)
    (h' : IsLiteral q content') :
    Requoted (taking q content name).render (taking q content' name).render := by
  have hbefore : IsUnquoted [.char '('] := by decide
  have hbehind : IsUnquoted (.char ' ' :: (name ++ ") -> void")) :=
    List.forall_mem_cons.2 ⟨rfl, IsUnquoted.append_iff.2
      ⟨isUnquoted_of_isParameterName hname, by decide⟩⟩
  rw [render_taking, render_taking]
  exact requoted_frame hbefore hbehind h h'

theorem requoted_giving (h : IsLiteral q content) (h' : IsLiteral q content') :
    Requoted (giving q content).render (giving q content').render := by
  rw [render_giving, render_giving]
  exact requoted_frame (by decide) (by decide) h h'

theorem isLiteral_nil (hq : isQuote q) : IsLiteral q [] :=
  ⟨hq, List.not_mem_nil, List.not_mem_nil, by decide⟩

/-- An opaque content does not matter, neither to the type of a parameter nor to a result. -/
theorem ofMethodType_of_isOpaque (collapse : Bool) (h : IsLiteral q content) :
    (∀ name, isParameterName name → ofMethodType collapse (taking q content name).render =
      ofMethodType collapse (taking q [] name).render) ∧
    ofMethodType collapse (giving q content).render =
      ofMethodType collapse (giving q []).render := by
  have hnil := isLiteral_nil h.quote
  refine ⟨fun name hname => ?_, ?_⟩
  · have hread {u : Text} (hu : Requoted (taking q [] name).render u) :=
      MethodType.ofMethodType_of_requoted collapse (wellFormed_taking h.quote hname)
        (legible_taking h.quote) (spelled_taking h.quote) hu
    rw [hread (requoted_taking hname hnil h), hread (requoted_taking hname hnil hnil)]
  · have hread {u : Text} (hu : Requoted (giving q []).render u) :=
      MethodType.ofMethodType_of_requoted collapse (wellFormed_giving h.quote)
        (List.forall_mem_nil _) (spelled_giving h.quote) hu
    rw [hread (requoted_giving hnil h), hread (requoted_giving hnil hnil)]

/-- A content does not matter in these two places exactly if it is opaque. -/
theorem unseen_iff_isOpaque (collapse : Bool) (hq : isQuote q) (hends : q ∉ content)
    (hline : .lineFeed ∉ content) :
    ((∀ name, isParameterName name → ofMethodType collapse (taking q content name).render =
        ofMethodType collapse (taking q [] name).render) ∧
      ofMethodType collapse (giving q content).render =
        ofMethodType collapse (giving q []).render) ↔ IsOpaque content := by
  constructor
  · rintro ⟨htaking, hgiving⟩
    -- No name that stands within the literal is as long as this one.
    have hword : ∀ s ∈ List.replicate content.length (Sym.char 'x'), s.isWord := fun s hs => by
      rw [List.eq_of_mem_replicate hs]
      decide
    have hname : isParameterName (.char 'x' :: List.replicate content.length (.char 'x')) := by
      rw [isParameterName, List.all_eq_true.2 hword, Bool.and_true]
      decide
    have hnested := isNested_of_taking hq hname (htaking _ hname) (by simp)
    exact ⟨hnested, bracketDepth_of_taking hq hname (htaking _ hname) hnested,
      fun _ _ => bars_of_giving hq hends hgiving⟩
  · intro hopaque
    exact ofMethodType_of_isOpaque collapse ⟨hq, hends, hline, hopaque⟩

end Exact

/-! ## Where literals are types -/

/-- **Opaque contents of literals do not matter, and no others do so everywhere.**  A well-formed
method type has the signature of every text it is requoted to.  So has any text that closes no
bracket that it did not open, if its signature shows no literal.  A file in which literals are types
only adds the same keys and signatures as a requoted one.  And a content that neither matters as the
type of a parameter nor in a result outside brackets is opaque. -/
theorem literals_are_opaque (collapse : Bool) :
    (∀ m : MethodType, m.WellFormed → (∀ p ∈ m.parameters, p.Legible) → m.Spelled →
      ∀ u, Requoted m.render u → ofMethodType collapse u = m.signature collapse) ∧
    (∀ t u, Requoted t u → IsNested t → ShowsNoQuote (ofMethodType collapse t) →
      ofMethodType collapse u = ofMethodType collapse t) ∧
    (∀ index file file', List.Forall₂ LineRequoted file.records file'.records →
      LiteralsAreTypes collapse index file →
      index.addText collapse file' = index.addText collapse file) ∧
    ∀ q content, isQuote q → q ∉ content → .lineFeed ∉ content →
      (((∀ name, isParameterName name → ofMethodType collapse (taking q content name).render =
          ofMethodType collapse (taking q [] name).render) ∧
        ofMethodType collapse (giving q content).render =
          ofMethodType collapse (giving q []).render) ↔ IsOpaque content) := by
  refine ⟨fun m h hlegible hspelled u hu => ?_, fun t u h hnested hshown => ?_,
    fun index file file' h htypes => ?_, fun q content hq hends hline => ?_⟩
  · exact MethodType.ofMethodType_of_requoted collapse h hlegible hspelled hu
  · exact ((signatureAgree_ofMethodType collapse h hnested).eq hshown).symm
  · exact addText_eq_of_lineRequoted h htypes
  · exact unseen_iff_isOpaque collapse hq hends hline

/-- The lines of a file with a literal in two places. -/
def literalLines (content : Text) : List Text :=
  ["class A", "  def go: " ++ (taking (.char '"') content "x").render,
    "  def no: " ++ (giving (.char '"') content).render, "end"]

/-- The file with these lines. -/
def literalFile (content : Text) : Text :=
  closed (literalLines content)

theorem records_literalFile : (literalFile []).records = literalLines [] := by
  decide

theorem addText_literalFile :
    Index.addText false [] (literalFile []) =
      [(⟨"A", .onInstance, "go"⟩, ofMethodType false (taking (.char '"') [] "x").render),
        (⟨"A", .onInstance, "no"⟩, ofMethodType false (giving (.char '"') []).render)] :=
  rfl

theorem showsNoQuote_ofMethodType {m : MethodType} (collapse : Bool) (h : m.WellFormed)
    (hlegible : ∀ p ∈ m.parameters, p.Legible) (hspelled : m.Spelled) :
    ShowsNoQuote (ofMethodType collapse m.render) := by
  rw [MethodType.ofMethodType_render_single collapse h hlegible]
  exact MethodType.showsNoQuote_signature collapse hspelled

/-- In this file literals are types only. -/
theorem literalsAreTypes_literalFile : LiteralsAreTypes false [] (literalFile []) where
  declares := by
    have hgo : trim (withoutComment ("  def go: " ++ (taking (.char '"') [] "x").render)) =
        Text.ofString "def go: (" ++ .char '"' :: "\" x) -> void" := by
      decide
    have hno : trim (withoutComment ("  def no: " ++ (giving (.char '"') []).render)) =
        Text.ofString "def no: () -> " ++ .char '"' :: "\" & Comparable" := by
      decide
    have hmember {before : Text} (name type : Text) (hname : .char '.' ∉ name)
        (hread : Declaration.ofLine (before ++ [.char '"']) = .method [.onInstance] name type) :
        IsMember (Declaration.ofLine (before ++ [.char '"'])) := by
      rw [hread]
      exact .method _ _ hname
    rw [records_literalFile, literalLines]
    simp only [List.forall_mem_cons]
    refine ⟨declaresFirst_of_isUnquoted (by decide), ?_, ?_,
      declaresFirst_of_isUnquoted (by decide), List.forall_mem_nil _⟩
    · rw [hgo]
      exact declaresFirst_of_isMember (by decide) rfl (hmember "go" "(\"" (by decide) (by decide))
    · rw [hno]
      exact declaresFirst_of_isMember (by decide) rfl
        (hmember "no" "() -> \"" (by decide) (by decide))
  nested := by
    have hall : ∀ above ∈ (literalFile []).records.inits,
        ∀ m ∈ (Reader.behind false [] above).method, IsNested m.type := by
      decide
    exact fun above habove => hall above ((List.mem_inits _ _).2 habove)
  shown := by
    have hquote : isQuote (.char '"') := rfl
    rw [addText_literalFile]
    simp only [List.length_nil, List.drop_zero, List.forall_mem_cons]
    exact ⟨showsNoQuote_ofMethodType false (wellFormed_taking hquote (by decide))
        (legible_taking hquote) (spelled_taking hquote),
      showsNoQuote_ofMethodType false (wellFormed_giving hquote) (List.forall_mem_nil _)
        (spelled_giving hquote), List.forall_mem_nil _⟩

theorem lineRequoted_of_requoted {t u : Text} (h : Requoted t u) : LineRequoted t u := by
  have hnone : LineRequoted (t ++ []) (u ++ []) := .intro h (by simp)
  rwa [List.append_nil, List.append_nil] at hnone

/-- A content with a pair of brackets, a bar, an arrow and the mark of a comment does not matter,
and an open bracket does. -/
theorem literals_are_opaque_bar :
    (taking (.char '"') [] "x").WellFormed ∧
      (∀ p ∈ (taking (.char '"') [] "x").parameters, p.Legible) ∧
      (taking (.char '"') [] "x").Spelled ∧
      Requoted (taking (.char '"') [] "x").render "(\"(b) | -> #\" x) -> void" ∧
      ofMethodType false "(\"(b) | -> #\" x) -> void" =
        (taking (.char '"') [] "x").signature false ∧
      IsNested (taking (.char '"') [] "x").render ∧
      ShowsNoQuote (ofMethodType false (taking (.char '"') [] "x").render) ∧
      ofMethodType false "(\"(b) | -> #\" x) -> void" =
        ofMethodType false (taking (.char '"') [] "x").render ∧
      LiteralsAreTypes false [] (literalFile []) ∧
      List.Forall₂ LineRequoted (literalFile []).records (literalFile "(b) | -> #").records ∧
      Index.addText false [] (literalFile "(b) | -> #") = Index.addText false [] (literalFile []) ∧
      .char '"' ∉ Text.ofString "(" ∧ .lineFeed ∉ Text.ofString "(" ∧
      ¬ ((∀ name, isParameterName name → ofMethodType false (taking (.char '"') "(" name).render =
          ofMethodType false (taking (.char '"') [] name).render) ∧
        ofMethodType false (giving (.char '"') "(").render =
          ofMethodType false (giving (.char '"') []).render) := by
  obtain ⟨hmethod, htext, hfile, hexact⟩ := literals_are_opaque false
  have hquote : isQuote (.char '"') := rfl
  have hname : isParameterName "x" := by decide
  have hnil := isLiteral_nil hquote
  have hcontent : IsLiteral (.char '"') "(b) | -> #" := ⟨rfl, by decide, by decide, by decide⟩
  have hwell := wellFormed_taking hquote hname
  have hlegible : ∀ p ∈ (taking (.char '"') [] "x").parameters, p.Legible := legible_taking hquote
  have hspelled : (taking (.char '"') [] "x").Spelled := spelled_taking hquote
  have hrequoted := requoted_taking hname hnil hcontent
  have hnested : IsNested (taking (.char '"') [] "x").render := by decide
  have hshown := showsNoQuote_ofMethodType false hwell hlegible hspelled
  have hlines : List.Forall₂ LineRequoted (literalFile []).records
      (literalFile "(b) | -> #").records := by
    have hrecords : (literalFile "(b) | -> #").records = literalLines "(b) | -> #" := by decide
    have hsame {t : Text} (ht : IsUnquoted t) : LineRequoted t t :=
      lineRequoted_of_requoted (.of_isUnquoted ht)
    rw [records_literalFile, hrecords]
    refine .cons (hsame (by decide)) (.cons ?_ (.cons ?_ (.cons (hsame (by decide)) .nil)))
    · exact lineRequoted_of_requoted ((Requoted.of_isUnquoted (by decide)).append hrequoted)
    · exact lineRequoted_of_requoted
        ((Requoted.of_isUnquoted (by decide)).append (requoted_giving hnil hcontent))
  have hends : Sym.char '"' ∉ Text.ofString "(" := by decide
  have hline : Sym.lineFeed ∉ Text.ofString "(" := by decide
  refine ⟨hwell, hlegible, hspelled, hrequoted, hmethod _ hwell hlegible hspelled _ hrequoted,
    hnested, hshown, htext _ _ hrequoted hnested hshown, literalsAreTypes_literalFile, hlines,
    hfile [] _ _ hlines literalsAreTypes_literalFile, hends, hline, fun hunseen => ?_⟩
  have hopaque := (hexact _ _ hquote hends hline).1 hunseen
  exact absurd hopaque (by decide)

/-- An open bracket in a literal hides the parameter and the result, and the methods that follow. -/
theorem bracket_in_literal_seen :
    ofMethodType false "(\"a\" x) -> Integer" =
        { returnType := "Integer", paramTypes := [("x", "String")] } ∧
      ofMethodType false "(\"(\" x) -> Integer" = { returnType := "Object" } ∧
      (Index.addText false [] (literalFile "a")).map Prod.fst =
        [⟨"A", .onInstance, "go"⟩, ⟨"A", .onInstance, "no"⟩] ∧
      (Index.addText false [] (literalFile "(")).map Prod.fst = [⟨"A", .onInstance, "go"⟩] := by
  have hstring : docType false "\"a\"" = "String" := by
    rw [docType_eq]
    decide
  have hinteger : docType false "Integer" = "Integer" := by
    rw [docType_eq]
    decide
  have hnothing : docType false "" = "Object" := by
    rw [docType_eq]
    decide
  have hclosed : ofMethodType false "(\"a\" x) -> Integer" =
      { returnType := docType false "Integer", paramTypes := [("x", docType false "\"a\"")] } := rfl
  have hopen : ofMethodType false "(\"(\" x) -> Integer" = { returnType := docType false "" } := rfl
  rw [hclosed, hopen, hstring, hnothing, hinteger]
  exact ⟨rfl, rfl, by decide, by decide⟩

end RubyDoc.Signature
