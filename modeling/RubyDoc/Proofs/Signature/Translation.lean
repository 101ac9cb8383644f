import RubyDoc.Proofs.Signature.TypeExpr
import RubyDoc.Proofs.Text.Search

/-!
# The translation of types is structural

A declared type is read off its text by a few tests in a fixed order.  On the text of a valid type
these tests find its outermost form, so the translation of the text is the translation of the tree
(`docType_render`).
-/

namespace RubyDoc.Signature

open Text

/-! ## Beginnings and ends -/

theorem startsWith_singleton {t : Text} {s : Sym} : t.startsWith [s] ↔ t.head? = some s := by
  rw [startsWith_iff, List.head?_eq_some_iff]
  rfl

theorem endsWith_singleton {t : Text} {s : Sym} : t.endsWith [s] ↔ t.getLast? = some s := by
  rw [endsWith, List.isSuffixOf_iff_suffix, List.getLast?_eq_some_iff]
  exact ⟨fun ⟨u, h⟩ => ⟨u, h.symm⟩, fun ⟨u, h⟩ => ⟨u, h.symm⟩⟩

/-! ## Translation by shape -/

variable {collapse : Bool} {t : Text}

theorem docType_eq (collapse : Bool) (t : Text) :
    docType collapse t =
      match shape t.trim with
      | .fixed word => word
      | .union members => Text.join ", " (members.map (docType collapse)).eraseDups
      | .optional inner => docType collapse inner ++ "?"
      | .group inner => docType collapse inner
      | .generic name arguments =>
          if collapse then name
          else name ++ "<" ++ Text.join ", " (arguments.map (docType collapse)) ++ ">" := by
  rw [docType]
  split <;> simp [*]

/-- White space around a type does not matter. -/
theorem docType_trim (collapse : Bool) (t : Text) :
    docType collapse t.trim = docType collapse t := by
  rw [docType_eq, trim_trim, ← docType_eq]

theorem map_docType_parts (collapse : Bool) (sep : Sym) (t : Text) :
    (parts sep t).map (docType collapse) = (pieces sep t).map (docType collapse) := by
  rw [parts, List.map_map]
  exact List.map_congr_left fun p _ => docType_trim collapse p

/-! ## Shapes -/

/-- A text without separators outside brackets is an atom unless its ends say otherwise. -/
theorem shape_eq_atomShape (hne : t ≠ []) (hclosed : Closed separators t)
    (hhead : ∀ s ∈ t.head?, s ∉ [Sym.char '^', .char '('])
    (hlast : t.getLast? ≠ some (.char '?')) : shape t = atomShape t := by
  have hcaret : ¬ t.startsWith "^" := fun h => hhead _ (startsWith_singleton.1 h) (by decide)
  have hgroup : ¬ t.startsWith "(" := fun h => hhead _ (startsWith_singleton.1 h) (by decide)
  have hoptional : ¬ t.endsWith "?" := fun h => hlast (endsWith_singleton.1 h)
  rw [shape, if_neg (by simpa using hne), if_neg hcaret,
    pieces_of_closed hclosed (by decide), pieces_of_closed hclosed (by decide)]
  simp [hgroup, hoptional]

/-- The shape of a keyword, or of a name and what follows it. -/
def nameShape (t : Text) : Shape :=
  match keywordTypes.lookup t with
  | some word => .fixed word
  | none =>
      if t.startsWith "singleton(" && t.endsWith ")" then .fixed "Class"
      else match generic? t with
        | some shape => shape
        | none => .fixed (if t.startsWith "::" then withoutColons t else t)

/-- What is neither a bracketed list nor a string nor a symbol is a number, a keyword or a name. -/
theorem atomShape_of_head
    (hhead : ∀ s ∈ t.head?, s ∉ [Sym.char '[', .char '\x7b', .char '"', .char '\''])
    (hsymbol : t.startsWith ":" → t.startsWith "::") :
    atomShape t = if isInteger t then .fixed "Integer" else nameShape t := by
  have htuple : ¬ t.startsWith "[" := fun h => hhead _ (startsWith_singleton.1 h) (by decide)
  have hrecord : ¬ t.startsWith "\x7b" := fun h => hhead _ (startsWith_singleton.1 h) (by decide)
  have hstring : ¬ t.head?.any isQuote := by
    rw [Option.any_eq_true]
    rintro ⟨s, hs, hquote⟩
    simp only [isQuote, Bool.or_eq_true, decide_eq_true_eq] at hquote
    exact hhead s hs (by rcases hquote with rfl | rfl <;> decide)
  have hsymbol' : ¬ (t.startsWith ":" && !t.startsWith "::") := by
    simpa using hsymbol
  rw [atomShape, if_neg htuple, if_neg hrecord, if_neg hstring, if_neg hsymbol']
  rfl

/-- No keyword has a symbol outside words. -/
theorem lookup_keywordTypes_eq_none {s : Sym} (hs : s ∈ t) (hword : s.isWord = false) :
    keywordTypes.lookup t = none := by
  have hall : ∀ entry ∈ keywordTypes, ∀ c ∈ entry.1, c.isWord = true := by decide
  rw [List.lookup_eq_none_iff]
  intro entry hentry
  rw [bne_iff_ne]
  rintro rfl
  rw [hall entry hentry s hs] at hword
  cases hword

theorem isInteger_eq_false {s : Sym} {rest : Text} (hminus : s ≠ .char '-')
    (hdigit : s.isDigit = false) : isInteger (s :: rest) = false := by
  have hhead : (s :: rest).head? ≠ some (.char '-') := fun h => hminus (Option.some.inj h)
  simp [isInteger, hminus, hdigit]

theorem withoutColons_anchored {path : Text} (h : IsPath path) (anchored : Bool) :
    withoutColons (anchoredPath anchored path) = path := by
  obtain ⟨s, rest, rfl, hword, -⟩ := h.head
  have hcolon : s ≠ .char ':' := by
    rintro rfl
    exact absurd hword (by decide)
  cases anchored <;> simp [withoutColons, anchoredPath, Text.ofString, hcolon]

namespace IsPath

variable {path : Text}

/-- What the first symbol of a path, anchored or not, is not. -/
theorem head_anchored (h : IsPath path) (anchored : Bool) (u : Text) :
    ∃ s rest, anchoredPath anchored path ++ u = s :: rest ∧ isPathSym s ∧ s.isDigit = false := by
  obtain ⟨s, rest, rfl, hword, hdigit⟩ := h.head
  cases anchored with
  | false => exact ⟨s, rest ++ u, rfl, by simp [isPathSym, hword], hdigit⟩
  | true => exact ⟨.char ':', .char ':' :: (s :: rest ++ u), rfl, rfl, rfl⟩

theorem startsWith_colons (h : IsPath path) (anchored : Bool) (u : Text)
    (hcolon : (anchoredPath anchored path ++ u).startsWith ":") :
    (anchoredPath anchored path ++ u).startsWith "::" ∧ anchored := by
  cases anchored with
  | true => exact ⟨startsWith_iff.2 ⟨path ++ u, rfl⟩, rfl⟩
  | false =>
      obtain ⟨s, rest, rfl, hword, -⟩ := h.head
      rw [Option.some.inj (startsWith_singleton.1 hcolon)] at hword
      exact absurd hword (by decide)

/-- The shape of a path that something in brackets may follow, or nothing. -/
theorem atomShape_append (h : IsPath path) (anchored : Bool) (u : Text) :
    atomShape (anchoredPath anchored path ++ u) = nameShape (anchoredPath anchored path ++ u) := by
  obtain ⟨s, rest, heq, hs, hdigit⟩ := h.head_anchored anchored u
  have hminus : s ≠ .char '-' := by
    rintro rfl
    exact absurd hs (by decide)
  rw [atomShape_of_head (fun c hc => ?_) fun hcolon => (h.startsWith_colons _ _ hcolon).1, heq,
    isInteger_eq_false hminus hdigit, if_neg Bool.false_ne_true]
  rw [heq] at hc
  rw [← Option.some.inj hc]
  exact notMem_of_class hs (by decide)

theorem head_notMem (h : IsPath path) (anchored : Bool) (u : Text) :
    ∀ s ∈ (anchoredPath anchored path ++ u).head?, s ∉ [Sym.char '^', .char '('] := by
  obtain ⟨s, rest, heq, hs, -⟩ := h.head_anchored anchored u
  rw [heq]
  intro c hc
  rw [← Option.some.inj hc]
  exact notMem_of_class hs (by decide)

/-- A path is documented as it is, without an anchor, unless it is a keyword. -/
theorem shape_eq (h : IsPath path) (anchored : Bool) :
    shape (anchoredPath anchored path) =
      .fixed (if anchored then path else (keywordTypes.lookup path).getD path) := by
  have hall := h.isPathSym_anchored anchored
  have hatom := h.atomShape_append anchored []
  have hhead := h.head_notMem anchored []
  rw [List.append_nil] at hatom hhead
  have hlast : (anchoredPath anchored path).getLast? ≠ some (.char '?') := fun hlast =>
    absurd (hall _ (List.mem_of_getLast? hlast)) (by decide)
  have hsingleton : ¬ (anchoredPath anchored path).startsWith "singleton(" := by
    rw [startsWith_iff]
    rintro ⟨rest, hrest⟩
    have hparen := hall (.char '(') (by rw [hrest]; exact List.mem_append_left _ (by decide))
    exact absurd hparen (by decide)
  have hgeneric : generic? (anchoredPath anchored path) = none := by
    rw [generic?, List.dropWhile_eq_nil_iff.2 hall]
  have hcolons := h.startsWith_colons anchored []
  rw [List.append_nil] at hcolons
  rw [shape_eq_atomShape (h.anchored_ne_nil anchored) (h.closed anchored) hhead hlast, hatom,
    nameShape]
  -- Keywords have no anchor, so an anchored one is the name of a class.
  cases anchored with
  | true =>
      have hlookup : keywordTypes.lookup (anchoredPath true path) = none :=
        lookup_keywordTypes_eq_none (s := .char ':') (List.mem_cons_self ..) rfl
      rw [hlookup]
      dsimp only
      have hstart : (anchoredPath true path).startsWith "::" := startsWith_iff.2 ⟨path, rfl⟩
      rw [hgeneric, withoutColons_anchored h]
      simp [hsingleton, hstart]
  | false =>
      have hplain : ¬ path.startsWith "::" := by
        intro hstart
        obtain ⟨rest, hrest⟩ := startsWith_iff.1 hstart
        exact absurd (hcolons (startsWith_iff.2 ⟨_, hrest⟩)).2 Bool.false_ne_true
      cases hlookup : keywordTypes.lookup path with
      | some word => simp [anchoredPath, hlookup]
      | none =>
          simp only [anchoredPath, Bool.false_eq_true, if_false] at hsingleton hgeneric ⊢
          rw [hlookup]
          dsimp only
          rw [hgeneric]
          simp [hsingleton, hplain]

theorem generic?_append (h : IsPath path) (anchored : Bool) (arguments : Text) :
    generic? (anchoredPath anchored path ++ between '[' ']' arguments) =
      some (.generic path (pieces (.char ',') arguments)) := by
  have hall := h.isPathSym_anchored anchored
  have hbracket : ¬ isPathSym (.char '[') := by decide
  have hdrop : (anchoredPath anchored path ++ between '[' ']' arguments).dropWhile isPathSym =
      between '[' ']' arguments := by
    rw [List.dropWhile_append_of_pos hall, between, List.dropWhile_cons_of_neg hbracket]
  have htake : (anchoredPath anchored path ++ between '[' ']' arguments).takeWhile isPathSym =
      anchoredPath anchored path := by
    rw [List.takeWhile_append_of_pos hall, between, List.takeWhile_cons_of_neg hbracket,
      List.append_nil]
  rw [generic?, hdrop, htake]
  simp [between, h.anchored_ne_nil anchored, withoutColons_anchored h]

/-- A path with arguments. -/
theorem shape_generic (h : IsPath path) (anchored : Bool) {arguments : Text}
    (harguments : Closed [] arguments) :
    shape (anchoredPath anchored path ++ between '[' ']' arguments) =
      .generic path (pieces (.char ',') arguments) := by
  have hlast : (anchoredPath anchored path ++ between '[' ']' arguments).getLast? =
      some (.char ']') := by
    rw [List.getLast?_append_of_ne_nil _ (between_ne_nil _ _ _), getLast?_between]
  have hparen : ¬ (anchoredPath anchored path ++ between '[' ']' arguments).endsWith ")" := by
    intro hend
    rw [endsWith_singleton.1 hend] at hlast
    exact absurd hlast (by decide)
  have hmem : Sym.char '[' ∈ anchoredPath anchored path ++ between '[' ']' arguments :=
    List.mem_append_right _ (mem_between ..)
  have hclosed : Closed separators (anchoredPath anchored path ++ between '[' ']' arguments) :=
    (h.closed anchored).append (.between rfl rfl harguments)
  rw [shape_eq_atomShape (List.ne_nil_of_mem hmem) hclosed (h.head_notMem _ _)
    (by rw [hlast]; decide), h.atomShape_append, nameShape, lookup_keywordTypes_eq_none hmem rfl]
  dsimp only
  rw [h.generic?_append]
  simp [hparen]

end IsPath

theorem isPath_singleton : IsPath (Text.ofString "singleton") where
  head := ⟨.char 's', Text.ofString "ingleton", rfl, rfl, rfl⟩
  all := by decide

/-- The class of a class. -/
theorem shape_singleton {inner : Text} (hinner : Closed [] inner) :
    shape (Text.ofString "singleton" ++ between '(' ')' inner) = .fixed "Class" := by
  have hlast : (Text.ofString "singleton" ++ between '(' ')' inner).getLast? =
      some (.char ')') := by
    rw [List.getLast?_append_of_ne_nil _ (between_ne_nil _ _ _), getLast?_between]
  have hstart : (Text.ofString "singleton" ++ between '(' ')' inner).startsWith "singleton(" :=
    startsWith_iff.2 ⟨inner ++ [.char ')'], by simp [between, Text.ofString]⟩
  have hend := endsWith_singleton.2 hlast
  have hmem : Sym.char '(' ∈ Text.ofString "singleton" ++ between '(' ')' inner :=
    List.mem_append_right _ (mem_between ..)
  have hclosed : Closed separators (Text.ofString "singleton" ++ between '(' ')' inner) :=
    (isPath_singleton.closed false).append (.between rfl rfl hinner)
  rw [shape_eq_atomShape (List.ne_nil_of_mem hmem) hclosed (isPath_singleton.head_notMem false _)
    (by rw [hlast]; decide)]
  refine (isPath_singleton.atomShape_append false _).trans ?_
  rw [nameShape]
  have hlookup := lookup_keywordTypes_eq_none hmem rfl
  simp only [anchoredPath, Bool.false_eq_true, if_false]
  rw [hlookup]
  simp [hstart, show Text.endsWith _ (Text.ofString ")") = true from hend]

/-! ## Shapes of valid types -/

theorem isInteger_digits (negative : Bool) {digits : Text} (hne : digits ≠ [])
    (h : ∀ s ∈ digits, s.isDigit) :
    isInteger (if negative then .char '-' :: digits else digits) := by
  obtain ⟨s, rest, rfl⟩ := List.exists_cons_of_ne_nil hne
  have hminus : s ≠ .char '-' := by
    rintro rfl
    exact absurd (h _ (List.mem_cons_self ..)) (by decide)
  cases negative <;> simpa [isInteger, hminus] using h

theorem shape_integer (negative : Bool) {digits : Text} (hne : digits ≠ [])
    (h : ∀ s ∈ digits, s.isDigit) :
    shape (if negative then .char '-' :: digits else digits) = .fixed "Integer" := by
  have hinteger := isInteger_digits negative hne h
  have hall : ∀ s ∈ (if negative then .char '-' :: digits else digits),
      s ∉ delimiters ++ separators ++ [.char '^', .char '?', .char ':'] := by
    have hdigits : ∀ s ∈ digits,
        s ∉ delimiters ++ separators ++ [.char '^', .char '?', .char ':'] :=
      fun s hs => notMem_of_class (h s hs) (by decide)
    cases negative with
    | false => exact hdigits
    | true => exact List.forall_mem_cons.2 ⟨by decide, hdigits⟩
  generalize (if negative then Sym.char '-' :: digits else digits) = t at hinteger hall ⊢
  have htext : t ≠ [] := by
    rintro rfl
    exact absurd hinteger (by decide)
  have hhead {s : Sym} (hs : t.head? = some s) := hall s (List.mem_of_mem_head? hs)
  have hclosed : Closed separators t := .of_notMem fun s hs hmem =>
    hall s hs (List.mem_append_left _ hmem)
  have hends_subset : [Sym.char '^', .char '('] ⊆
      delimiters ++ separators ++ [.char '^', .char '?', .char ':'] := by decide
  have hhead_subset : [Sym.char '[', .char '\x7b', .char '"', .char '\''] ⊆
      delimiters ++ separators ++ [.char '^', .char '?', .char ':'] := by decide
  rw [shape_eq_atomShape htext hclosed, atomShape_of_head, if_pos hinteger]
  · exact fun s hs hmem => hhead hs (hhead_subset hmem)
  · exact fun hcolon => absurd (by decide) (hhead (startsWith_singleton.1 hcolon))
  · exact fun s hs hmem => hhead hs (hends_subset hmem)
  · exact fun hlast => absurd (by decide) (hall _ (List.mem_of_getLast? hlast))

theorem shape_symbol {word : Text} (hne : word ≠ []) (h : ∀ s ∈ word, s.isWord) :
    shape (.char ':' :: word) = .fixed "Symbol" := by
  obtain ⟨s, rest, rfl⟩ := List.exists_cons_of_ne_nil hne
  have hclosed : Closed separators (.char ':' :: s :: rest) :=
    .cons (by decide) (.of_class h (by decide))
  have hlast : (Sym.char ':' :: s :: rest).getLast? ≠ some (.char '?') := by
    rw [List.getLast?_cons_cons]
    exact fun hlast => absurd (h _ (List.mem_of_getLast? hlast)) (by decide)
  have hcolon : Sym.char ':' ≠ s := by
    rintro rfl
    exact absurd (h _ (List.mem_cons_self ..)) (by decide)
  rw [shape_eq_atomShape (List.cons_ne_nil _ _) hclosed (by simp) hlast]
  simp [atomShape, startsWith, List.isPrefixOf, ofString, isQuote, hcolon]

theorem shape_string {quote : Sym} {content : Text} (hquote : isQuote quote)
    (h : ∀ s ∈ content, IsPlain s) : shape (quote :: (content ++ [quote])) = .fixed "String" := by
  have hlast : (quote :: (content ++ [quote])).getLast? = some quote := by
    rw [← List.cons_append, List.getLast?_concat]
  have hclosed : Closed separators (quote :: (content ++ [quote])) := .quoted hquote h .nil
  simp only [isQuote, Bool.or_eq_true, decide_eq_true_eq] at hquote
  rw [shape_eq_atomShape (List.cons_ne_nil _ _) hclosed]
  · rcases hquote with rfl | rfl <;> rfl
  · intro s hs
    rw [← Option.some.inj hs]
    rcases hquote with rfl | rfl <;> decide
  · rw [hlast]
    rcases hquote with rfl | rfl <;> decide

theorem shape_tuple {content : Text} (h : Closed [] content) :
    shape (between '[' ']' content) = .fixed "Array" := by
  rw [shape_eq_atomShape (between_ne_nil _ _ _) (.between rfl rfl h) (by simp [between])
    (by rw [getLast?_between]; decide)]
  rfl

theorem shape_record {content : Text} (h : Closed [] content) :
    shape (between '\x7b' '\x7d' content) = .fixed "Hash" := by
  rw [shape_eq_atomShape (between_ne_nil _ _ _) (.between rfl rfl h) (by simp [between])
    (by rw [getLast?_between]; decide)]
  rfl

theorem shape_proc (t : Text) : shape (.char '^' :: t) = .fixed "Proc" := by
  have hcaret : Text.startsWith (.char '^' :: t) "^" := startsWith_singleton.2 rfl
  rw [shape, if_neg (by simp), if_pos hcaret]

theorem shape_group {inner : Text} (h : Closed [] inner) :
    shape (between '(' ')' inner) = .group inner := by
  have hclosed : Closed separators (between '(' ')' inner) := .between rfl rfl h
  have hcaret : ¬ (between '(' ')' inner).startsWith "^" := fun hstart =>
    absurd (Option.some.inj (startsWith_singleton.1 hstart)) (by decide)
  have hoptional : ¬ (between '(' ')' inner).endsWith "?" := by
    intro hend
    have hlast := endsWith_singleton.1 hend
    rw [getLast?_between] at hlast
    exact absurd hlast (by decide)
  have hstart : (between '(' ')' inner).startsWith "(" := startsWith_singleton.2 rfl
  have hclosing : closing? (between '(' ')' inner) = some ((between '(' ')' inner).length - 1) := by
    rw [between, closing?_bracket rfl rfl h]
    simp
  rw [shape, if_neg (by simp [between]), if_neg hcaret, pieces_of_closed hclosed (by decide),
    pieces_of_closed hclosed (by decide)]
  simp [hoptional, hstart, hclosing]
  simp [between]

/-- A question mark behind a type without separators outside brackets. -/
theorem shape_optional {inner : Text} (hne : inner ≠ []) (hclosed : Closed separators inner)
    (hhead : inner.head? ≠ some (.char '^')) : shape (inner ++ [.char '?']) = .optional inner := by
  have hcaret : ¬ Text.startsWith (inner ++ [.char '?']) "^" := by
    intro hstart
    have hhead' := startsWith_singleton.1 hstart
    rw [List.head?_append_of_ne_nil _ hne] at hhead'
    exact hhead hhead'
  have hall : Closed separators (inner ++ [.char '?']) :=
    hclosed.append (.cons (by decide) .nil)
  have hend : Text.endsWith (inner ++ [.char '?']) "?" :=
    endsWith_singleton.2 List.getLast?_concat
  have hlength : 0 < inner.length := List.length_pos_iff.2 hne
  rw [shape, if_neg (by simp), if_neg hcaret, pieces_of_closed hall (by decide),
    pieces_of_closed hall (by decide)]
  simp [hend, hlength]

/-- Members between bars. -/
theorem shape_union {t : Text} (hhead : t.head? ≠ some (.char '^'))
    (h : 1 < (pieces (.char '|') t).length) : shape t = .union (pieces (.char '|') t) := by
  have hne : t ≠ [] := by
    rintro rfl
    exact absurd h (by decide)
  have hcaret : ¬ t.startsWith "^" := fun hstart => hhead (startsWith_singleton.1 hstart)
  rw [shape, if_neg (by simpa using hne), if_neg hcaret, if_pos h]

/-- Members between ampersands, without bars outside brackets. -/
theorem shape_intersection {t : Text} (hhead : t.head? ≠ some (.char '^'))
    (hunion : pieces (.char '|') t = [t]) (h : 1 < (pieces (.char '&') t).length) :
    shape t = .fixed "Object" := by
  have hne : t ≠ [] := by
    rintro rfl
    exact absurd h (by decide)
  have hcaret : ¬ t.startsWith "^" := fun hstart => hhead (startsWith_singleton.1 hstart)
  rw [shape, if_neg (by simpa using hne), if_neg hcaret, hunion, if_neg (by simp), if_pos h]

/-! ## The translation -/

namespace TypeExpr

/-- The members of a list of valid types, read back from its text. -/
theorem parts_render (left right : Text) (hleft : isBlank left) (hright : isBlank right)
    {sep : Sym} (hsep : IsPlain sep) (hsepBlank : sep.isBlank = false) {ts : List TypeExpr}
    (hne : ts ≠ []) (h : ∀ t ∈ ts, t.Valid) (havoided : ∀ t ∈ ts, sep ∈ t.avoided) :
    parts sep (Text.join (left ++ sep :: right) (ts.map render)) = ts.map render := by
  refine parts_join left right hleft hright hsep hsepBlank (by simpa using hne) fun u hu => ?_
  obtain ⟨t, ht, rfl⟩ := List.mem_map.1 hu
  have hclosed : Closed [sep] t.render := (h t ht).closed.mono (by simpa using havoided t ht)
  exact ⟨hclosed, (h t ht).isTrimmed.trim_eq⟩

theorem bar_mem_avoided {t : TypeExpr} (h : ¬ t.IsUnion) : Sym.char '|' ∈ t.avoided :=
  subset_avoided_of_not_isUnion h (List.mem_cons_self ..)

/-- A list of valid types that is cut where it should be is translated member by member. -/
theorem map_docType_pieces {collapse : Bool} {sep : Sym} {u : Text} {ts : List TypeExpr}
    (hparts : parts sep u = ts.map render)
    (ih : ∀ t ∈ ts, docType collapse t.render = t.translate collapse) :
    (pieces sep u).map (docType collapse) = ts.map (translate collapse) := by
  rw [← map_docType_parts, hparts, List.map_map]
  exact List.map_congr_left ih

theorem length_pieces {sep : Sym} {u : Text} {ts : List TypeExpr}
    (hparts : parts sep u = ts.map render) : (pieces sep u).length = ts.length := by
  have h := congrArg List.length hparts
  rwa [parts, List.length_map, List.length_map] at h

theorem docType_of_shape_fixed (collapse : Bool) {t : TypeExpr} (h : t.Valid) {word : Text}
    (hshape : shape t.render = .fixed word) : docType collapse t.render = word := by
  rw [docType_eq, h.isTrimmed.trim_eq, hshape]

/-- **Translating the text of a type is translating the type.**  The keywords go by their table,
anchors are dropped, literals, tuples, records, procs and intersections become the class of their
values, and optional types, groups, unions and generic types are translated part by part. -/
theorem docType_render (collapse : Bool) {t : TypeExpr} (h : t.Valid) :
    docType collapse t.render = t.translate collapse := by
  induction h with
  | name h => exact docType_of_shape_fixed collapse (.name h) (h.shape_eq _)
  | integer hne h => exact docType_of_shape_fixed collapse (.integer hne h) (shape_integer _ hne h)
  | symbol hne h => exact docType_of_shape_fixed collapse (.symbol hne h) (shape_symbol hne h)
  | string hquote h =>
      exact docType_of_shape_fixed collapse (.string hquote h) (shape_string hquote h)
  | singleton h =>
      exact docType_of_shape_fixed collapse (.singleton h)
        (shape_singleton ((h.closed _).mono (List.nil_subset _)))
  | tuple h => exact docType_of_shape_fixed collapse (.tuple h) (shape_tuple h)
  | record h => exact docType_of_shape_fixed collapse (.record h) (shape_record h)
  | proc h hresult hunion hintersection =>
      exact docType_of_shape_fixed collapse (.proc h hresult hunion hintersection) (shape_proc _)
  | @generic anchored path arguments h hne harguments ih =>
      have hclosed : Closed [] (Text.join ", " (arguments.map render)) := by
        refine .join (.of_notMem (by decide)) fun u hu => ?_
        obtain ⟨a, ha, rfl⟩ := List.mem_map.1 hu
        exact (harguments a ha).closed.mono (List.nil_subset _)
      have hparts : parts (.char ',') (Text.join ", " (arguments.map render)) =
          arguments.map render :=
        parts_render [] " " rfl rfl (isPlain_of_notMem (by decide)) rfl hne harguments
          fun a _ => comma_subset_avoided a (List.mem_singleton_self _)
      rw [docType_eq, (TypeExpr.Valid.generic h hne harguments).isTrimmed.trim_eq, render,
        renderAll_eq_map, h.shape_generic anchored hclosed]
      dsimp only
      rw [map_docType_pieces hparts ih, translate, translateAll_eq_map]
  | group h ih =>
      rw [docType_eq, (TypeExpr.Valid.group h).isTrimmed.trim_eq, render,
        shape_group (h.closed.mono (List.nil_subset _)), translate]
      exact ih
  | optional h hunion hintersection hproc ih =>
      have hclosed := h.closed
      rw [avoided_eq hunion hintersection] at hclosed
      rw [docType_eq, (TypeExpr.Valid.optional h hunion hintersection hproc).isTrimmed.trim_eq,
        render, shape_optional h.isTrimmed.ne_nil hclosed (h.head_ne_caret hproc), translate]
      dsimp only
      rw [ih]
  | @intersection first rest hne h hunion hproc ih =>
      have hvalid := TypeExpr.Valid.intersection hne h hunion hproc
      have hbars := pieces_of_closed hvalid.closed (bar_mem_avoided id)
      have hfirst := h first (List.mem_cons_self ..)
      obtain ⟨second, more, rfl⟩ := List.exists_cons_of_ne_nil hne
      -- The first member may hold ampersands itself; the one behind it cuts in any case.
      have htwo : 1 < (pieces (.char '&')
          (TypeExpr.intersection (first :: second :: more)).render).length := by
        have hclosed : Closed [] (first.render ++ Text.ofString " ") :=
          (hfirst.closed.mono (List.nil_subset _)).append (.of_notMem (by decide))
        have hcut := one_lt_length_pieces hclosed (isPlain_of_notMem (s := .char '&') (by decide))
          (Text.ofString " " ++ Text.join " & " (renderAll (second :: more)))
        simpa [render, renderAll, Text.join, Text.ofString] using hcut
      exact docType_of_shape_fixed collapse hvalid
        (shape_intersection (hvalid.head_ne_caret id) hbars htwo)
  | @union first rest hne h hunion hproc ih =>
      have hvalid := TypeExpr.Valid.union hne h hunion hproc
      have hparts : parts (.char '|') (Text.join " | " ((first :: rest).map render)) =
          (first :: rest).map render :=
        parts_render " " " " rfl rfl (isPlain_of_notMem (by decide)) rfl (List.cons_ne_nil _ _) h
          fun t ht => bar_mem_avoided (hunion t ht)
      have hlength := length_pieces hparts
      have htwo : 0 < rest.length := List.length_pos_iff.2 hne
      have hshape := shape_union (hvalid.head_ne_caret id)
        (by rw [render, renderAll_eq_map, hlength, List.length_cons]; omega)
      rw [docType_eq, hvalid.isTrimmed.trim_eq, hshape]
      dsimp only
      rw [render, renderAll_eq_map, map_docType_pieces hparts ih, translate, translateAll_eq_map]

/-- A hash with an optional class, a proc, or nothing at all. -/
def hashOrProc : TypeExpr :=
  .union [.generic false "Hash" [.name false "Symbol", .optional (.name true "Foo")],
    .proc "(Integer)" (.name false "void"), .name false "nil", .name false "nil"]

theorem docType_render_hashOrProc :
    hashOrProc.Valid ∧
      hashOrProc.render = "Hash[Symbol, ::Foo?] | ^(Integer) -> void | nil | nil" ∧
      docType false hashOrProc.render = "Hash<Symbol, Foo?>, Proc, nil" := by
  have hname {anchored : Bool} {s : Sym} {rest : Text} (hs : s.isWord && !s.isDigit)
      (hrest : (s :: rest).all isPathSym) : Valid (.name anchored (s :: rest)) := by
    rw [Bool.and_eq_true, Bool.not_eq_true'] at hs
    exact .name ⟨⟨s, rest, rfl, hs⟩, List.all_eq_true.1 hrest⟩
  have hvalid : hashOrProc.Valid := by
    refine .union (List.cons_ne_nil _ _) ?_ ?_ id
    · simp only [List.forall_mem_cons]
      refine ⟨?_, ?_, hname rfl rfl, hname rfl rfl, by simp⟩
      · refine .generic ⟨⟨_, _, rfl, rfl, rfl⟩, by decide⟩ (List.cons_ne_nil _ _) ?_
        simp only [List.forall_mem_cons]
        exact ⟨hname rfl rfl, .optional (hname rfl rfl) id id id, by simp⟩
      · have hinteger : Closed [] (Text.ofString "Integer") := .of_notMem (by decide)
        exact .proc (.between (o := '(') (c := ')') rfl rfl hinteger) (hname rfl rfl) id id
    · simp [IsUnion]
  exact ⟨hvalid, by decide, (docType_render false hvalid).trans (by decide)⟩

end TypeExpr

end RubyDoc.Signature
