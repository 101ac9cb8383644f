import RubyDoc.Signature.DocType
import RubyDoc.Proofs.Signature.Closed

/-!
# Type expressions

The types of a signature file as trees, how they are spelled, and what they are in the notation of
documentation, by recursion on the tree.  Spelling a type that is `Valid` gives a trimmed text that
closes what it opens; bars and ampersands stand outside brackets only in unions and intersections.
-/

namespace RubyDoc.Signature

open Text

/-- A type of a signature file. -/
inductive TypeExpr where
  /-- A keyword, or the name of a class, an interface or an alias.  An anchor is two colons. -/
  | name (anchored : Bool) (path : Text)
  | integer (negative : Bool) (digits : Text)
  | symbol (word : Text)
  | string (quote : Sym) (content : Text)
  /-- The class of a class. -/
  | singleton (anchored : Bool) (path : Text)
  | generic (anchored : Bool) (path : Text) (arguments : List TypeExpr)
  /-- What a tuple or a record holds is not looked at: any text between the brackets. -/
  | tuple (content : Text)
  | record (content : Text)
  /-- The parameters with their brackets, and a block if there is one, are not looked at either. -/
  | proc (parameters : Text) (result : TypeExpr)
  | group (inner : TypeExpr)
  | optional (inner : TypeExpr)
  | intersection (members : List TypeExpr)
  | union (members : List TypeExpr)

/-- A path of names as it is spelled. -/
def anchoredPath (anchored : Bool) (path : Text) : Text :=
  if anchored then "::" ++ path else path

/-- A text between brackets. -/
def between (o c : Char) (t : Text) : Text :=
  .char o :: (t ++ [.char c])

theorem getLast?_between (o c : Char) (t : Text) : (between o c t).getLast? = some (.char c) := by
  rw [between, ← List.cons_append, List.getLast?_concat]

theorem between_ne_nil (o c : Char) (t : Text) : between o c t ≠ [] :=
  List.cons_ne_nil _ _

theorem mem_between (o c : Char) (t : Text) : Sym.char o ∈ between o c t :=
  List.mem_cons_self ..

theorem Closed.between {cuts : List Sym} {o c : Char} {t : Text} (ho : isOpening (.char o))
    (hc : isClosing (.char c)) (h : Closed [] t) : Closed cuts (between o c t) :=
  .bracket ho hc h .nil

namespace TypeExpr

mutual

/-- How a type is spelled. -/
def render : TypeExpr → Text
  | name anchored path => anchoredPath anchored path
  | integer negative digits => if negative then .char '-' :: digits else digits
  | symbol word => .char ':' :: word
  | string quote content => quote :: (content ++ [quote])
  | singleton anchored path => "singleton" ++ between '(' ')' (anchoredPath anchored path)
  | generic anchored path arguments =>
      anchoredPath anchored path ++ between '[' ']' (Text.join ", " (renderAll arguments))
  | tuple content => between '[' ']' content
  | record content => between '\x7b' '\x7d' content
  | proc parameters result => .char '^' :: (parameters ++ " -> " ++ result.render)
  | group inner => between '(' ')' inner.render
  | optional inner => inner.render ++ [.char '?']
  | intersection members => Text.join " & " (renderAll members)
  | union members => Text.join " | " (renderAll members)

/-- How the types of a list are spelled. -/
def renderAll : List TypeExpr → List Text
  | [] => []
  | t :: ts => t.render :: renderAll ts

end

mutual

/-- What a type is in the notation of documentation, with or without the arguments of generic
types. -/
def translate (collapse : Bool) : TypeExpr → Text
  | name anchored path => if anchored then path else (keywordTypes.lookup path).getD path
  | integer _ _ => "Integer"
  | symbol _ => "Symbol"
  | string _ _ => "String"
  | singleton _ _ => "Class"
  | generic _ path arguments =>
      if collapse then path
      else path ++ "<" ++ Text.join ", " (translateAll collapse arguments) ++ ">"
  | tuple _ => "Array"
  | record _ => "Hash"
  | proc _ _ => "Proc"
  | group inner => inner.translate collapse
  | optional inner => inner.translate collapse ++ "?"
  | intersection _ => "Object"
  | union members => Text.join ", " (translateAll collapse members).eraseDups

/-- What the types of a list are in the notation of documentation. -/
def translateAll (collapse : Bool) : List TypeExpr → List Text
  | [] => []
  | t :: ts => t.translate collapse :: translateAll collapse ts

end

theorem renderAll_eq_map (ts : List TypeExpr) : renderAll ts = ts.map render := by
  induction ts with
  | nil => rfl
  | cons t ts ih => rw [renderAll, ih, List.map_cons]

theorem translateAll_eq_map (collapse : Bool) (ts : List TypeExpr) :
    translateAll collapse ts = ts.map (translate collapse) := by
  induction ts with
  | nil => rfl
  | cons t ts ih => rw [translateAll, ih, List.map_cons]

/-- A union that is not in parentheses. -/
def IsUnion : TypeExpr → Prop
  | union _ => True
  | _ => False

/-- An intersection that is not in parentheses. -/
def IsIntersection : TypeExpr → Prop
  | intersection _ => True
  | _ => False

/-- A proc that is not in parentheses. -/
def IsProc : TypeExpr → Prop
  | proc _ _ => True
  | _ => False

end TypeExpr

/-- The symbols that part the members of unions, intersections and lists. -/
def separators : List Sym := [.char '|', .char '&', .char ',']

/-- Words and colons, beginning with a word that is no number. -/
structure IsPath (t : Text) : Prop where
  head : ∃ s rest, t = s :: rest ∧ s.isWord ∧ s.isDigit = false
  all : ∀ s ∈ t, isPathSym s

/-- The types whose spelling says what they are.  Where a type is spelled without parentheses, it
must not be read as a part of what stands around it: the members of unions and intersections are no
unions, a proc ends neither in a union nor in an intersection and is not their first member, and
what is optional is none of these. -/
inductive TypeExpr.Valid : TypeExpr → Prop
  | name {anchored : Bool} {path : Text} (h : IsPath path) : Valid (.name anchored path)
  | integer {negative : Bool} {digits : Text} (hne : digits ≠ [])
      (h : ∀ s ∈ digits, s.isDigit) : Valid (.integer negative digits)
  | symbol {word : Text} (hne : word ≠ []) (h : ∀ s ∈ word, s.isWord) : Valid (.symbol word)
  | string {quote : Sym} {content : Text} (hquote : isQuote quote)
      (h : ∀ s ∈ content, IsPlain s) : Valid (.string quote content)
  | singleton {anchored : Bool} {path : Text} (h : IsPath path) : Valid (.singleton anchored path)
  | generic {anchored : Bool} {path : Text} {arguments : List TypeExpr} (h : IsPath path)
      (hne : arguments ≠ []) (harguments : ∀ t ∈ arguments, Valid t) :
      Valid (.generic anchored path arguments)
  | tuple {content : Text} (h : Closed [] content) : Valid (.tuple content)
  | record {content : Text} (h : Closed [] content) : Valid (.record content)
  | proc {parameters : Text} {result : TypeExpr} (h : Closed separators parameters)
      (hresult : Valid result) (hunion : ¬ result.IsUnion)
      (hintersection : ¬ result.IsIntersection) : Valid (.proc parameters result)
  | group {inner : TypeExpr} (h : Valid inner) : Valid (.group inner)
  | optional {inner : TypeExpr} (h : Valid inner) (hunion : ¬ inner.IsUnion)
      (hintersection : ¬ inner.IsIntersection) (hproc : ¬ inner.IsProc) : Valid (.optional inner)
  | intersection {first : TypeExpr} {rest : List TypeExpr} (hne : rest ≠ [])
      (h : ∀ t ∈ first :: rest, Valid t) (hunion : ∀ t ∈ first :: rest, ¬ t.IsUnion)
      (hproc : ¬ first.IsProc) : Valid (.intersection (first :: rest))
  | union {first : TypeExpr} {rest : List TypeExpr} (hne : rest ≠ [])
      (h : ∀ t ∈ first :: rest, Valid t) (hunion : ∀ t ∈ first :: rest, ¬ t.IsUnion)
      (hproc : ¬ first.IsProc) : Valid (.union (first :: rest))

/-! ## Symbols of words and numbers -/

theorem isBlank_eq_false_of_isPathSym {s : Sym} (h : isPathSym s) : s.isBlank = false := by
  rw [isPathSym, Bool.or_eq_true, decide_eq_true_eq] at h
  rcases h with h | rfl
  · exact Sym.isBlank_eq_false_of_isWord h
  · decide

theorem isPathSym_anchoredPath {path : Text} (h : ∀ s ∈ path, isPathSym s) (anchored : Bool) :
    ∀ s ∈ anchoredPath anchored path, isPathSym s := by
  cases anchored with
  | false => exact h
  | true =>
      intro s hs
      rcases List.mem_append.1 hs with hs | hs
      · exact (show ∀ s ∈ Text.ofString "::", isPathSym s by decide) s hs
      · exact h s hs

namespace IsPath

variable {path : Text}

theorem ne_nil (h : IsPath path) : path ≠ [] := by
  obtain ⟨s, rest, rfl, -⟩ := h.head
  exact List.cons_ne_nil _ _

theorem isPathSym_anchored (h : IsPath path) (anchored : Bool) :
    ∀ s ∈ anchoredPath anchored path, isPathSym s :=
  isPathSym_anchoredPath h.all anchored

theorem anchored_ne_nil (h : IsPath path) (anchored : Bool) : anchoredPath anchored path ≠ [] := by
  cases anchored with
  | false => exact h.ne_nil
  | true => exact List.cons_ne_nil _ _

theorem closed (h : IsPath path) (anchored : Bool) :
    Closed separators (anchoredPath anchored path) :=
  .of_class (h.isPathSym_anchored anchored) (by decide)

theorem isTrimmed (h : IsPath path) (anchored : Bool) : IsTrimmed (anchoredPath anchored path) :=
  .of_not_blank (h.anchored_ne_nil anchored) fun s hs =>
    isBlank_eq_false_of_isPathSym (h.isPathSym_anchored anchored s hs)

end IsPath

/-! ## Valid types as texts -/

namespace TypeExpr

/-- The separators that do not stand in the text of a type outside its brackets. -/
def avoided : TypeExpr → List Sym
  | union _ => [.char ',']
  | intersection _ => [.char '|', .char ',']
  | _ => separators

theorem subset_avoided_of_not_isUnion {t : TypeExpr} (h : ¬ t.IsUnion) :
    [Sym.char '|', .char ','] ⊆ t.avoided := by
  cases t with
  | union => exact absurd trivial h
  | intersection => exact List.Subset.refl _
  | _ => exact show [Sym.char '|', .char ','] ⊆ separators by decide

theorem comma_subset_avoided (t : TypeExpr) : [Sym.char ','] ⊆ t.avoided := by
  cases t with
  | union => exact List.Subset.refl _
  | intersection => exact show [Sym.char ','] ⊆ [.char '|', .char ','] by decide
  | _ => exact show [Sym.char ','] ⊆ separators by decide

theorem avoided_eq {t : TypeExpr} (hunion : ¬ t.IsUnion) (hintersection : ¬ t.IsIntersection) :
    t.avoided = separators := by
  cases t with
  | union => exact absurd trivial hunion
  | intersection => exact absurd trivial hintersection
  | _ => rfl

/-- The text of a valid type closes what it opens. -/
theorem Valid.closed {t : TypeExpr} (h : t.Valid) : Closed t.avoided t.render := by
  induction h with
  | name h => exact h.closed _
  | @integer negative digits _ h =>
      have hdigits : Closed separators digits := .of_class h (by decide)
      cases negative with
      | false => exact hdigits
      | true => exact .cons (show _ ∉ delimiters ++ separators by decide) hdigits
  | @symbol word _ h =>
      have hword : Closed separators word := .of_class h (by decide)
      exact .cons (show _ ∉ delimiters ++ separators by decide) hword
  | string hquote h => exact .quoted hquote h .nil
  | singleton h =>
      have hword : Closed separators (Text.ofString "singleton") :=
        .of_class (p := Sym.isWord) (by decide) (by decide)
      exact hword.append (.between (by decide) (by decide) ((h.closed _).mono (List.nil_subset _)))
  | @generic anchored path arguments h _ _ ih =>
      refine (h.closed anchored).append (.between rfl rfl ?_)
      rw [renderAll_eq_map]
      refine .join (.of_notMem (by decide)) fun t ht => ?_
      obtain ⟨a, ha, rfl⟩ := List.mem_map.1 ht
      exact (ih a ha).mono (List.nil_subset _)
  | tuple h => exact .between rfl rfl h
  | record h => exact .between rfl rfl h
  | @proc parameters result h _ hunion hintersection ih =>
      -- The result avoids all separators, since it is neither a union nor an intersection.
      rw [avoided_eq hunion hintersection] at ih
      have harrow : Closed separators (Text.ofString " -> ") := .of_notMem (by decide)
      exact .cons (show _ ∉ delimiters ++ separators by decide) ((h.append harrow).append ih)
  | group h ih => exact .between rfl rfl (ih.mono (List.nil_subset _))
  | optional _ hunion hintersection _ ih =>
      rw [avoided_eq hunion hintersection] at ih
      exact ih.append (.cons (show _ ∉ delimiters ++ separators by decide) .nil)
  | @intersection first rest _ _ hunion _ ih =>
      rw [render, renderAll_eq_map, avoided]
      refine .join (.of_notMem (by decide)) fun t ht => ?_
      obtain ⟨m, hm, rfl⟩ := List.mem_map.1 ht
      exact (ih m hm).mono (subset_avoided_of_not_isUnion (hunion m hm))
  | @union first rest _ _ _ _ ih =>
      rw [render, renderAll_eq_map, avoided]
      refine .join (.of_notMem (by decide)) fun t ht => ?_
      obtain ⟨m, hm, rfl⟩ := List.mem_map.1 ht
      exact (ih m hm).mono (comma_subset_avoided m)

theorem isTrimmed_join (sep : Text) {ts : List Text} (hne : ts ≠ []) (h : ∀ t ∈ ts, IsTrimmed t) :
    IsTrimmed (Text.join sep ts) := by
  induction ts with
  | nil => exact absurd rfl hne
  | cons t ts ih =>
      obtain ⟨ht, hts⟩ := List.forall_mem_cons.1 h
      cases ts with
      | nil => exact ht
      | cons u rest => exact ht.append (ih (by simp) hts) sep

/-- The text of a valid type has no white space around it. -/
theorem Valid.isTrimmed {t : TypeExpr} (h : t.Valid) : IsTrimmed t.render := by
  induction h with
  | name h => exact h.isTrimmed _
  | @integer negative digits hne h =>
      have hdigits : ∀ s ∈ digits, s.isBlank = false := fun s hs =>
        Sym.isBlank_eq_false_of_isDigit (h s hs)
      cases negative with
      | false => exact .of_not_blank hne hdigits
      | true =>
          exact .of_not_blank (List.cons_ne_nil _ _) (List.forall_mem_cons.2 ⟨rfl, hdigits⟩)
  | symbol _ h =>
      exact .of_not_blank (List.cons_ne_nil _ _) (List.forall_mem_cons.2
        ⟨rfl, fun s hs => Sym.isBlank_eq_false_of_isWord (h s hs)⟩)
  | string hquote _ =>
      have hblank := isBlank_of_mem_delimiters (mem_delimiters_of_quote hquote)
      exact .between hblank hblank _
  | @singleton anchored path h =>
      exact .between (a := .char 's') (b := .char ')') rfl rfl
        (Text.ofString "ingleton(" ++ anchoredPath anchored path)
  | @generic anchored path arguments h _ _ _ =>
      have hall := (h.isTrimmed anchored).append (.singleton (s := .char ']') rfl)
        (.char '[' :: Text.join ", " (renderAll arguments))
      rwa [List.append_assoc] at hall
  | tuple => exact .between rfl rfl _
  | record => exact .between rfl rfl _
  | @proc parameters result _ _ _ _ ih =>
      have hall := (IsTrimmed.singleton (s := .char '^') rfl).append ih
        (parameters ++ Text.ofString " -> ")
      rwa [List.singleton_append, List.cons_append] at hall
  | group => exact .between rfl rfl _
  | @optional inner _ _ _ _ ih =>
      have hall := ih.append (.singleton (s := .char '?') rfl) []
      rwa [List.append_nil] at hall
  | @intersection first rest _ _ _ _ ih =>
      rw [render, renderAll_eq_map]
      refine isTrimmed_join _ (by simp) fun t ht => ?_
      obtain ⟨m, hm, rfl⟩ := List.mem_map.1 ht
      exact ih m hm
  | @union first rest _ _ _ _ ih =>
      rw [render, renderAll_eq_map]
      refine isTrimmed_join _ (by simp) fun t ht => ?_
      obtain ⟨m, hm, rfl⟩ := List.mem_map.1 ht
      exact ih m hm

theorem head?_join (sep t : Text) (ht : t ≠ []) (ts : List Text) :
    (Text.join sep (t :: ts)).head? = t.head? := by
  cases ts with
  | nil => rfl
  | cons u rest =>
      rw [Text.join, List.append_assoc, List.head?_append_of_ne_nil _ ht]

/-- Only procs begin with a caret. -/
theorem Valid.head_ne_caret {t : TypeExpr} (h : t.Valid) (hproc : ¬ t.IsProc) :
    t.render.head? ≠ some (.char '^') := by
  have hclass {u : Text} {p : Sym → Bool} (hu : ∀ s ∈ u, p s) (hp : p (.char '^') = false) :
      u.head? ≠ some (.char '^') := by
    intro hhead
    have hcaret := hu _ (List.mem_of_mem_head? hhead)
    rw [hp] at hcaret
    cases hcaret
  induction h with
  | @name anchored path h => exact hclass (h.isPathSym_anchored anchored) rfl
  | @integer negative digits _ h =>
      cases negative with
      | false => exact hclass h rfl
      | true => simp [render]
  | @string quote content hquote _ =>
      refine fun hhead => ?_
      rw [Option.some.inj (show some quote = some (.char '^') from hhead)] at hquote
      exact absurd hquote (by decide)
  | singleton => exact show some (Sym.char 's') ≠ some (.char '^') by decide
  | @generic anchored path arguments h _ _ _ =>
      rw [render, List.head?_append_of_ne_nil _ (h.anchored_ne_nil anchored)]
      exact hclass (h.isPathSym_anchored anchored) rfl
  | proc => exact absurd trivial hproc
  | optional h _ _ hinner ih =>
      rw [render, List.head?_append_of_ne_nil _ h.isTrimmed.ne_nil]
      exact ih hinner
  | @intersection first rest _ h _ hfirst ih =>
      have hfirstMem : first ∈ first :: rest := List.mem_cons_self ..
      rw [render, renderAll, head?_join _ _ (h first hfirstMem).isTrimmed.ne_nil]
      exact ih first hfirstMem hfirst
  | @union first rest _ h _ hfirst ih =>
      have hfirstMem : first ∈ first :: rest := List.mem_cons_self ..
      rw [render, renderAll, head?_join _ _ (h first hfirstMem).isTrimmed.ne_nil]
      exact ih first hfirstMem hfirst
  | symbol | tuple | record | group => simp [render, between]

end TypeExpr

end RubyDoc.Signature
