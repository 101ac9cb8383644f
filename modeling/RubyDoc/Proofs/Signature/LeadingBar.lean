import RubyDoc.Proofs.Signature.Index
import RubyDoc.Proofs.Signature.MethodType

/-!
# Overloads behind a bar

A bar in front of the first overload stays in its text.  Neither parameters nor an arrow are found
behind it, so that a method type that begins with a bar documents nothing, whatever overloads
follow; the same overloads without the bar are read.  A method all of whose overloads stand below
its name, each behind a bar, is indexed with this signature.  Both ways of writing a method agree
exactly where the first overload itself documents nothing (`barred_same_iff`).
-/

namespace RubyDoc.Signature

open Outline Text

/-- The signature that says nothing of a method. -/
def silent : Signature :=
  { returnType := "Object" }

/-! ## A bar in front of a method type -/

theorem bracketStep_of_isBlank {s : Sym} (h : s.isBlank) : bracketStep s = 0 :=
  IsPlain.bracketStep_eq (isPlain_of_notMem fun hmem => by
    rw [isBlank_of_mem_delimiters hmem] at h
    cases h)

/-- Without an arrow before it, a bar does not end the first overload. -/
theorem overloadFrom_blank_bar {w : Text} (hw : isBlank w) (t : Text) :
    overloadFrom 0 false (w ++ .char '|' :: t) = w ++ .char '|' :: overloadFrom 0 false t := by
  induction w with
  | nil =>
      rw [List.nil_append, List.nil_append, overloadFrom, if_neg (by simp)]
      rfl
  | cons s w ih =>
      obtain ⟨hs, hw⟩ := List.forall_mem_cons.1 (List.all_eq_true.1 hw)
      have hdash : s ≠ .char '-' := by
        rintro rfl
        exact absurd hs (by decide)
      rw [List.cons_append, overloadFrom, if_neg (by simp)]
      simp [hdash, bracketStep_of_isBlank hs, ih (List.all_eq_true.2 hw)]

theorem exists_trim_bar {w : Text} (hw : isBlank w) (t : Text) :
    ∃ rest, trim (w ++ .char '|' :: t) = .char '|' :: rest := by
  have hleft : trimLeft (.char '|' :: t) = [.char '|'] ++ t :=
    trimLeft_of_head fun s hs => by
      rw [← Option.some.inj hs]
      decide
  rw [trim_append_left hw, trim, hleft, trimRight_append]
  split
  · exact ⟨[], rfl⟩
  · exact ⟨trimRight t, rfl⟩

/-- A method type behind a bar documents nothing. -/
theorem ofMethodType_bar (collapse : Bool) {w : Text} (hw : isBlank w) (t : Text) :
    ofMethodType collapse (w ++ .char '|' :: t) = silent := by
  have hfirst : ∃ rest, firstOverload (w ++ .char '|' :: t) = .char '|' :: rest := by
    rw [firstOverload, overloadFrom_blank_bar hw]
    exact exists_trim_bar hw _
  obtain ⟨rest, hfirst⟩ := hfirst
  -- The bar is none of the symbols that a part of a method type begins with.
  have hparameters : parameterList (afterTypeParameters (.char '|' :: rest)) =
      ([], .char '|' :: rest) := rfl
  have hresult : resultType (afterBlock (.char '|' :: rest)) = [] := rfl
  rw [ofMethodType, hfirst, hparameters]
  dsimp only
  rw [hresult, docType_eq]
  rfl

/-! ## What the overloads document without the bar -/

/-- A well-formed method type documents nothing iff nothing is read off its parameters and its
result is any object. -/
theorem signature_asRead_eq_silent_iff (collapse : Bool) (m : MethodType) :
    m.asRead.signature collapse = silent ↔
      docType collapse m.result = "Object" ∧
        ∀ p ∈ m.asRead.parameters, p.named? = none ∧ p.element? = none ∧ p.value? = none := by
  have hnil {α β : Type} {f : α → Option β} {l : List α} :
      l.filterMap f = [] ↔ ∀ a ∈ l, f a = none := by simp
  have hlast {α β : Type} {f : α → Option β} {l : List α} :
      (l.filterMap f).getLast? = none ↔ ∀ a ∈ l, f a = none := by simp
  simp only [MethodType.signature, silent, Signature.mk.injEq, List.map_eq_nil_iff,
    Option.map_eq_none_iff, hnil, hlast, forall_and]
  rfl

/-! ## Methods with all overloads below their name -/

theorem prefix_join (sep t : Text) (ts : List Text) : t <+: Text.join sep (t :: ts) := by
  cases ts with
  | nil => exact List.prefix_rfl
  | cons u rest =>
      rw [Text.join, List.append_assoc]
      exact List.prefix_append _ _

theorem InlineType.not_blank_joined (first : InlineType) (later : List InlineType) :
    isBlank (Text.join " | " ((first :: later).map InlineType.text)) = false := by
  cases later with
  | nil => exact first.not_blank
  | cons next later =>
      rw [List.map_cons, List.map_cons, Text.join, isBlank_append, isBlank_append,
        first.not_blank, Bool.false_and, Bool.false_and]

theorem IsInLine.join {sep : Text} (hsep : IsInLine sep) {ts : List Text}
    (h : ∀ t ∈ ts, IsInLine t) : IsInLine (Text.join sep ts) := by
  induction ts with
  | nil => exact List.forall_mem_nil _
  | cons t ts ih =>
      obtain ⟨ht, hts⟩ := List.forall_mem_cons.1 h
      cases ts with
      | nil => exact ht
      | cons u rest => exact (ht.append hsep).append (ih hts)

/-- The overloads in one line, with a bar between neighbours. -/
def InlineType.joined (first : InlineType) (later : List InlineType) : InlineType where
  text := Text.join " | " ((first :: later).map InlineType.text)
  not_blank := first.not_blank_joined later
  balanced := bracketDepth_join rfl (List.forall_mem_map.2 fun overload _ => overload.balanced)
  inLine := .join (by decide) (List.forall_mem_map.2 fun overload _ => overload.inLine)

namespace MethodMember

variable (m : MethodMember)

/-- The method with its overloads in the line of its name. -/
def inOneLine : MethodMember :=
  { m with type := m.type.joined m.overloads, overloads := [] }

/-- The method with its first overload for a further one as well. -/
def withBars : MethodMember :=
  { m with overloads := m.type :: m.overloads }

/-- The lines of the method with its overloads below its name, each behind a bar. -/
def barredLines : List Text :=
  ("def" ++ " " ++ m.receiver.written ++ m.name ++ ":") :: m.withBars.overloadLines

theorem ofLine_head_barredLines :
    Declaration.ofLine (trim ("def" ++ " " ++ m.receiver.written ++ m.name ++ ":")) =
      .method m.receiver.scopes m.name [] := by
  have hname : ∀ s ∈ m.name, s.isBlank = false ∧ s ≠ .char ':' ∧ s ≠ .char '.' := fun s hs =>
    have hs := isMethodSym_iff.1 (m.inName s hs)
    ⟨hs.1, hs.2.1, hs.2.2.1⟩
  have hdef : IsTrimmed (Text.ofString "def") := ⟨by decide, by decide, by decide⟩
  have htrim := (hdef.append (IsTrimmed.singleton (s := .char ':') rfl)
    (" " ++ m.receiver.written ++ m.name)).trim_eq
  simp only [List.append_assoc] at htrim ⊢
  rw [show Text.ofString ":" = [.char ':'] from rfl, htrim]
  -- Behind the colon stands nothing.
  have hnothing (s : Sym) (hs : ([] : Text).head? = some s) : s.isBlank = false := by cases hs
  have hread := Declaration.ofLine_method (w := []) m.receiver.mem_receivers m.name_ne_nil hname rfl
    hnothing
  rw [← hread]
  simp [Text.ofString]

theorem isComplete_barred :
    (⟨m.receiver.scopes, m.name, Text.join " " ([] :: m.withBars.overloadLines.map trim)⟩ :
      OpenMethod).IsComplete := by
  have hbalanced : ∀ line ∈ m.withBars.overloadLines.map trim, bracketDepth line = 0 := by
    refine List.forall_mem_map.2 (List.forall_mem_map.2 fun overload _ => ?_)
    rw [bracketDepth_trim, bracketDepth_append, overload.balanced]
    rfl
  exact ⟨List.cons_ne_nil _ _, bracketDepth_join rfl (List.forall_mem_cons.2 ⟨rfl, hbalanced⟩)⟩

theorem ofMethodType_barred (collapse : Bool) :
    ofMethodType collapse (Text.join " " ([] :: m.withBars.overloadLines.map trim)) = silent := by
  obtain ⟨rest, hrest⟩ := startsWith_iff.1
    (m.withBars.startsWith_bar (trim ("| " ++ m.type.text)) List.mem_cons_self)
  obtain ⟨more, hmore⟩ := prefix_join " " (trim ("| " ++ m.type.text)) (m.overloadLines.map trim)
  -- The type is empty in the line of the name, so that a space stands in front of the bar.
  have htype : Text.join " " ([] :: m.withBars.overloadLines.map trim) =
      " " ++ .char '|' :: (rest ++ more) := by
    show [] ++ Text.ofString " " ++
      Text.join " " (trim ("| " ++ m.type.text) :: m.overloadLines.map trim) = _
    rw [← hmore, hrest]
    rfl
  rw [htype, ofMethodType_bar collapse (by decide)]

/-- Below its name, each behind a bar, the overloads of a method are indexed as saying nothing. -/
theorem reads_barredLines {collapse : Bool} {blocks : List Block}
    (houtside : (blocks.head?.any fun b => b.kind = .interface) = false) :
    Reads collapse blocks (m.barredLines.map trim) (m.receiver.scopes.map fun scope =>
      (⟨Reader.containerOf (blocks.reverse.map Block.name), scope, m.name⟩, silent)) := by
  rw [← m.ofMethodType_barred collapse]
  exact .method houtside m.ofLine_head_barredLines m.withBars.startsWith_bar m.isComplete_barred

/-- In one line, the overloads of a method are indexed with the signature that they have. -/
theorem reads_inOneLine {collapse : Bool} {blocks : List Block}
    (houtside : (blocks.head?.any fun b => b.kind = .interface) = false) :
    Reads collapse blocks (m.inOneLine.lines.map trim) (m.receiver.scopes.map fun scope =>
      (⟨Reader.containerOf (blocks.reverse.map Block.name), scope, m.name⟩,
        ofMethodType collapse m.inOneLine.joinedType)) :=
  m.inOneLine.reads_of_outside houtside

end MethodMember

/-! ## A method among the lines of a file -/

namespace Reader

variable {collapse : Bool} {r : Reader}

theorem addText_closed {index : Index} {lines : List Text}
    (h : ∀ line ∈ lines, IsUnbroken line) :
    index.addText collapse (closed lines) =
      ((behind collapse index lines).closeMethod collapse).index := by
  rw [Index.addText, records_closed h]
  rfl

theorem closeMethod_eq (collapse : Bool) (r : Reader) :
    r.closeMethod collapse = ⟨(r.closeMethod collapse).index, r.blocks, none⟩ := by
  obtain ⟨index, blocks, method⟩ := r
  cases method with
  | none => rfl
  | some m => rw [closeMethod_some]

/-- Before lines that do not go on with a type, a method may be closed or stay open. -/
theorem closeMethod_foldl (hr : r.IsComplete) {lines : List Text}
    (hhead : ∀ line, lines.head? = some line → line.startsWith "|" = false) :
    (lines.foldl (readLine collapse) r).closeMethod collapse =
      (lines.foldl (readLine collapse) (r.closeMethod collapse)).closeMethod collapse := by
  cases lines with
  | nil =>
      rw [List.foldl_nil, List.foldl_nil, closeMethod_eq collapse r]
      rfl
  | cons line lines =>
      rw [List.foldl_cons, readLine_closeMethod hr (hhead line rfl), ← List.foldl_cons]

end Reader

/-- What some lines of a file add is in the index in the end. -/
theorem Reads.prefix_addAll {collapse : Bool} {r : Reader} (hr : r.IsComplete)
    {lines below : List Text} {entries : Index} (h : Reads collapse r.blocks lines entries)
    (hbelow : ∀ line, below.head? = some line → line.startsWith "|" = false) :
    (r.closeMethod collapse).index.addAll entries <+:
      (((lines ++ below).foldl (Reader.readLine collapse) r).closeMethod collapse).index := by
  have hclosed : (lines.foldl (Reader.readLine collapse) r).closeMethod collapse =
      ⟨(r.closeMethod collapse).index.addAll entries, r.blocks, none⟩ := by
    rw [Reader.closeMethod_foldl hr h.head, r.closeMethod_eq, h.closed]
  have hcomplete : (lines.foldl (Reader.readLine collapse) r).IsComplete := by
    cases lines with
    | nil => exact hr
    | cons line lines =>
        rw [List.foldl_cons, Reader.readLine_closeMethod hr (h.head line rfl), ← List.foldl_cons,
          r.closeMethod_eq]
        exact h.complete _
  rw [List.foldl_append, Reader.closeMethod_foldl hcomplete hbelow, hclosed]
  exact (Reader.prefix_foldl collapse ⟨_, r.blocks, none⟩ below).trans
    (Reader.prefix_closeMethod collapse _)

/-- Lines of a file around a member: what is above it is complete and leaves no interface open, and
what is below it does not go on with its type. -/
structure Around (collapse : Bool) (index : Index) (above below : List Text) : Prop where
  unbroken : ∀ line ∈ above ++ below, IsUnbroken line
  complete : (Reader.behind collapse index above).IsComplete
  outside : (Reader.behind collapse index above).inInterface = false
  head : ∀ line, below.head? = some line → (trim (withoutComment line)).startsWith "|" = false

/-- The key of a method behind some lines. -/
def Reader.keyOf (r : Reader) (scope : Scope) (name : Text) : Key :=
  ⟨r.container, scope, name⟩

theorem lookup_scopes {scopes : List Scope} {scope : Scope} (h : scope ∈ scopes) (key : Scope → Key)
    (sig : Signature) :
    (scopes.map fun scope => (key scope, sig)).lookup (key scope) = some sig := by
  induction scopes with
  | nil => cases h
  | cons first scopes ih =>
      rw [List.map_cons, List.lookup_cons]
      cases hkey : key scope == key first with
      | true => rfl
      | false =>
          refine ih ((List.mem_cons.1 h).resolve_left ?_)
          rintro rfl
          rw [beq_self_eq_true] at hkey
          cases hkey

/-- A method that is new is found with the signature that its lines add. -/
theorem Around.lookup_addText {collapse : Bool} {index : Index} {above below lines : List Text}
    (h : Around collapse index above below) (hlines : ∀ line ∈ lines, IsInLine line)
    {scopes : List Scope} {name : Text} {sig : Signature}
    (hreads : Reads collapse (Reader.behind collapse index above).blocks (lines.map trim)
      (scopes.map fun scope => ((Reader.behind collapse index above).keyOf scope name, sig)))
    {scope : Scope} (hscope : scope ∈ scopes)
    (hnew : (((Reader.behind collapse index above).closeMethod collapse).index.lookup
      ((Reader.behind collapse index above).keyOf scope name)) = none) :
    (index.addText collapse (closed (above ++ lines ++ below))).lookup
      ((Reader.behind collapse index above).keyOf scope name) = some sig := by
  obtain ⟨habove, hbelow⟩ := List.forall_mem_append.1 h.unbroken
  have hunbroken : ∀ line ∈ above ++ lines ++ below, IsUnbroken line :=
    List.forall_mem_append.2 ⟨List.forall_mem_append.2
      ⟨habove, fun line hline => (hlines line hline).isUnbroken⟩, hbelow⟩
  have hread : lines.map (fun line => trim (withoutComment line)) = lines.map trim :=
    List.map_congr_left fun line hline => by rw [withoutComment_of_isInLine (hlines line hline)]
  rw [Reader.addText_closed hunbroken, List.append_assoc, Reader.behind_append, List.map_append,
    hread]
  refine Index.lookup_of_prefix (hreads.prefix_addAll h.complete fun line hline => ?_) ?_
  · rw [List.head?_map, Option.map_eq_some_iff] at hline
    obtain ⟨raw, hraw, rfl⟩ := hline
    exact h.head raw hraw
  · rw [Index.lookup_addAll, hnew, Option.none_or]
    exact lookup_scopes hscope (fun scope => Reader.keyOf _ scope name) sig

namespace MethodMember

theorem isInLine_barredLines (m : MethodMember) : ∀ line ∈ m.barredLines, IsInLine line := by
  refine List.forall_mem_cons.2 ⟨?_, fun line hline =>
    m.withBars.isInLine line (List.mem_cons_of_mem _ hline)⟩
  -- The line of the name, with the type behind it, is one of the member's lines.
  intro s hs
  refine m.isInLine m.line List.mem_cons_self s (List.mem_append_left _ ?_)
  rcases List.mem_append.1 hs with hs | hs
  · exact List.mem_append_left _ hs
  · exact List.mem_append_right _ (List.mem_cons.2 (Or.inl (List.mem_singleton.1 hs)))

end MethodMember

/-- **Where a leading bar makes no difference.**  Behind a bar a method type documents nothing, so
that the bar changes nothing exactly if the type documents nothing without it: for a well-formed
method type, if its result is any object and no parameter is documented.  In a file, a method that
is new has the same signature with all overloads below its name, each behind a bar, as with these
overloads in one line, exactly if they document nothing there. -/
theorem barred_same_iff (collapse : Bool) :
    (∀ t, ofMethodType collapse ("| " ++ t) = ofMethodType collapse t ↔
      ofMethodType collapse t = silent) ∧
    (∀ m : MethodType, m.WellFormed → ∀ later : List Text, (∀ t ∈ later, opensOverload t) →
      (ofMethodType collapse ("| " ++ Text.join " | " (m.render :: later)) =
          ofMethodType collapse (Text.join " | " (m.render :: later)) ↔
        docType collapse m.result = "Object" ∧
          ∀ p ∈ m.asRead.parameters, p.named? = none ∧ p.element? = none ∧ p.value? = none)) ∧
    ∀ (index : Index) (above below : List Text), Around collapse index above below →
      ∀ (m : MethodMember), ∀ scope ∈ m.receiver.scopes,
        let r := Reader.behind collapse index above
        (r.closeMethod collapse).index.lookup (r.keyOf scope m.name) = none →
        ((index.addText collapse (closed (above ++ m.barredLines ++ below))).lookup
            (r.keyOf scope m.name) =
          (index.addText collapse (closed (above ++ m.inOneLine.lines ++ below))).lookup
            (r.keyOf scope m.name) ↔
          ofMethodType collapse m.inOneLine.joinedType = silent) := by
  -- Behind the bar nothing is read, so every part asks whether nothing is documented without it.
  have hbar (t : Text) : ofMethodType collapse ("| " ++ t) = silent :=
    ofMethodType_bar collapse (w := []) rfl (.char ' ' :: t)
  refine ⟨fun t => ?_, fun m hm later hlater => ?_, fun index above below h m scope hscope => ?_⟩
  · rw [hbar]
    exact eq_comm
  · rw [hbar, MethodType.ofMethodType_render_asRead collapse hm hlater, eq_comm]
    exact signature_asRead_eq_silent_iff collapse m
  · intro r hnew
    rw [h.lookup_addText m.isInLine_barredLines (m.reads_barredLines h.outside) hscope hnew,
      h.lookup_addText m.inOneLine.isInLine (m.reads_inOneLine h.outside) hscope hnew,
      Option.some_inj]
    exact eq_comm

/-- A method with two overloads. -/
def namedCall : MethodMember where
  receiver := .absent
  name := "call"
  type := ⟨"(Integer id) -> String", by decide, by decide, by decide⟩
  overloads := [⟨"() -> bool", by decide, by decide, by decide⟩]
  name_ne_nil := by decide
  inName := by decide

theorem around_namedCall : Around false [] ["class A"] ["end"] where
  unbroken := by decide
  complete := fun m hm => by
    have hnone : (Reader.behind false [] ["class A"]).method = none := by decide
    rw [hnone] at hm
    cases hm
  outside := by decide
  head := fun line hline => by
    rw [← Option.some.inj hline]
    decide

theorem docType_integer : docType false "Integer" = "Integer" := by
  rw [docType_eq]
  decide

theorem docType_string : docType false "String" = "String" := by
  rw [docType_eq]
  decide

theorem ofMethodType_namedCall :
    ofMethodType false namedCall.inOneLine.joinedType =
      { returnType := "String", paramTypes := [("id", "Integer")] } := by
  have hread : ofMethodType false namedCall.inOneLine.joinedType =
      { returnType := docType false "String", paramTypes := [("id", docType false "Integer")] } :=
    rfl
  rw [hread, docType_string, docType_integer]

/-- Below its name the method loses its parameter and its result. -/
theorem barred_same_iff_namedCall :
    Around false [] ["class A"] ["end"] ∧ .onInstance ∈ namedCall.receiver.scopes ∧
      ((Reader.behind false [] ["class A"]).closeMethod false).index.lookup
        ⟨"A", .onInstance, "call"⟩ = none ∧
      MethodType.finder.WellFormed ∧ (∀ t ∈ [Text.ofString "() -> bool"], opensOverload t) ∧
      ofMethodType false ("| " ++ Text.join " | " [MethodType.finder.render, "() -> bool"]) ≠
        ofMethodType false (Text.join " | " [MethodType.finder.render, "() -> bool"]) ∧
      closed ([Text.ofString "class A"] ++ namedCall.barredLines ++ [Text.ofString "end"]) =
        closed ["class A", "def call:", "| (Integer id) -> String", "| () -> bool", "end"] ∧
      closed ([Text.ofString "class A"] ++ namedCall.inOneLine.lines ++ [Text.ofString "end"]) =
        closed ["class A", "def call: (Integer id) -> String | () -> bool", "end"] ∧
      (Index.addText false [] (closed
          ([Text.ofString "class A"] ++ namedCall.barredLines ++ [Text.ofString "end"]))).lookup
            ⟨"A", .onInstance, "call"⟩ ≠
        (Index.addText false [] (closed
          ([Text.ofString "class A"] ++ namedCall.inOneLine.lines ++ [Text.ofString "end"]))).lookup
            ⟨"A", .onInstance, "call"⟩ := by
  obtain ⟨-, hrender, hindex⟩ := barred_same_iff false
  have hlater : ∀ t ∈ [Text.ofString "() -> bool"], opensOverload t := by decide
  have hnew : ((Reader.behind false [] ["class A"]).closeMethod false).index.lookup
      ⟨"A", .onInstance, "call"⟩ = none := by decide
  have hcall := hindex [] ["class A"] ["end"] around_namedCall namedCall .onInstance (by decide)
    hnew
  refine ⟨around_namedCall, by decide, hnew, MethodType.wellFormed_finder, hlater, fun hsame => ?_,
    by decide, by decide, fun hsame => ?_⟩
  · obtain ⟨-, hsilent⟩ := (hrender MethodType.finder MethodType.wellFormed_finder _ hlater).1 hsame
    exact absurd (hsilent (.positional false "Integer" (some "id")) (by decide)).1 (by decide)
  · have hsilent := hcall.1 hsame
    rw [ofMethodType_namedCall] at hsilent
    exact absurd hsilent (by decide)

/-- A bar in front of a single overload hides its result. -/
theorem ofMethodType_bar_loses_result :
    ofMethodType false "| (Integer) -> String" ≠ ofMethodType false "(Integer) -> String" := by
  have hinline : ofMethodType false "(Integer) -> String" =
      { returnType := docType false "String" } := rfl
  have hbarred : ofMethodType false "| (Integer) -> String" = silent :=
    ofMethodType_bar false (w := []) rfl " (Integer) -> String"
  rw [hinline, docType_string, hbarred]
  decide

end RubyDoc.Signature
