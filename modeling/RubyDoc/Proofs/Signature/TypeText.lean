import RubyDoc.Signature.MethodType
import RubyDoc.Proofs.Signature.Translation

/-!
# Types inside a list of parameters

A parameter is told apart by its text alone: stars and a question mark stand before it, a label is a
word with a single colon behind it, and a name is a last word behind a type.  The text of a type
must therefore not be mistaken for any of these.  `IsType` describes these texts, with white space
wherever it may stand, and without looking into brackets; what is read off a parameter follows from
the shape of its type.
-/

namespace RubyDoc.Signature

open Text

/-- Words with two colons between neighbours, perhaps after two colons: a keyword, a number without
a sign, or the name of a class, an interface or an alias. -/
def IsName (t : Text) : Prop :=
  ∃ (anchored : Bool) (words : List Text), words ≠ [] ∧
    (∀ w ∈ words, w ≠ [] ∧ ∀ s ∈ w, s.isWord) ∧ t = anchoredPath anchored (Text.join "::" words)

/-- The texts of types. -/
inductive IsType : Text → Prop
  | name {t : Text} (h : IsName t) : IsType t
  | number {sign : Sym} {digits : Text} (hsign : sign ∈ [Sym.char '-', .char '+'])
      (hne : digits ≠ []) (h : ∀ s ∈ digits, s.isWord) : IsType (sign :: digits)
  /-- The symbol of a name or of an operator.  Names made of a comma or a quote are left out. -/
  | symbol {word : Text} (hne : word ≠ []) (hblank : ∀ s ∈ word, s.isBlank = false)
      (h : Closed [.char ','] word) : IsType (.char ':' :: word)
  | quotedSymbol {quote : Sym} {content : Text} (hquote : isQuote quote)
      (h : ∀ s ∈ content, IsPlain s) : IsType (.char ':' :: quote :: (content ++ [quote]))
  | string {quote : Sym} {content : Text} (hquote : isQuote quote)
      (h : ∀ s ∈ content, IsPlain s) : IsType (quote :: (content ++ [quote]))
  /-- A tuple, a record, or a type in parentheses. -/
  | bracketed {o c : Char} {inner : Text} (ho : isOpening (.char o)) (hc : isClosing (.char c))
      (h : Closed [] inner) : IsType (between o c inner)
  /-- Arguments in brackets behind the name of a class, or the class of a class. -/
  | applied {t w : Text} {o c : Char} {inner : Text} (ht : IsType t) (hw : isBlank w)
      (ho : isOpening (.char o)) (hc : isClosing (.char c)) (h : Closed [] inner) :
      IsType (t ++ (w ++ between o c inner))
  | optional {t w : Text} (ht : IsType t) (hw : isBlank w) : IsType (t ++ (w ++ [.char '?']))
  /-- Whatever parameters and block a proc has before its arrow. -/
  | proc {parameters w result : Text} (h : Closed [.char ','] parameters) (hw : isBlank w)
      (hresult : IsType result) :
      IsType (.char '^' :: (parameters ++ Text.ofString "->") ++ w ++ result)
  /-- A union or an intersection. -/
  | joined {a b w w' : Text} {op : Sym} (ha : IsType a) (hb : IsType b) (hw : isBlank w)
      (hw' : isBlank w') (hop : op ∈ [Sym.char '|', .char '&']) :
      IsType (a ++ (w ++ [op]) ++ w' ++ b)

/-! ## Names as texts -/

section Words

variable {words : List Text}

theorem isPathSym_join (h : ∀ w ∈ words, w ≠ [] ∧ ∀ s ∈ w, s.isWord) :
    ∀ s ∈ Text.join "::" words, isPathSym s := by
  have hword {w : Text} (hw : ∀ s ∈ w, s.isWord) : ∀ s ∈ w, isPathSym s :=
    fun s hs => by simp [isPathSym, hw s hs]
  induction words with
  | nil => simp [Text.join]
  | cons w words ih =>
      obtain ⟨⟨-, hw⟩, hrest⟩ := List.forall_mem_cons.1 h
      cases words with
      | nil => exact hword hw
      | cons v rest =>
          intro s hs
          rw [Text.join, List.append_assoc, List.mem_append, List.mem_append] at hs
          rcases hs with hs | hs | hs
          · exact hword hw s hs
          · exact (show ∀ s ∈ Text.ofString "::", isPathSym s by decide) s hs
          · exact ih hrest s hs

theorem join_ne_nil (sep : Text) (hne : words ≠ []) (h : ∀ w ∈ words, w ≠ []) :
    Text.join sep words ≠ [] := by
  obtain ⟨w, rest, rfl⟩ := List.exists_cons_of_ne_nil hne
  have hw := h w (List.mem_cons_self ..)
  cases rest with
  | nil => exact hw
  | cons v rest => simp [Text.join, hw]

theorem join_concat (sep : Text) {ts : List Text} (hne : ts ≠ []) (t : Text) :
    Text.join sep (ts ++ [t]) = Text.join sep ts ++ sep ++ t := by
  induction ts with
  | nil => exact absurd rfl hne
  | cons u ts ih =>
      cases ts with
      | nil => rfl
      | cons v rest =>
          have hrest := ih (List.cons_ne_nil v rest)
          rw [List.cons_append] at hrest
          rw [List.cons_append, List.cons_append, Text.join, hrest, Text.join]
          simp only [List.append_assoc]

end Words

namespace IsName

variable {t : Text}

theorem isPathSym (h : IsName t) : ∀ s ∈ t, isPathSym s := by
  obtain ⟨anchored, words, -, hwords, rfl⟩ := h
  exact isPathSym_anchoredPath (isPathSym_join hwords) anchored

theorem ne_nil (h : IsName t) : t ≠ [] := by
  obtain ⟨anchored, words, hne, hwords, rfl⟩ := h
  cases anchored with
  | false => exact join_ne_nil _ hne fun w hw => (hwords w hw).1
  | true => exact List.cons_ne_nil _ _

theorem isBlank_eq_false (h : IsName t) : ∀ s ∈ t, s.isBlank = false := fun s hs =>
  isBlank_eq_false_of_isPathSym (h.isPathSym s hs)

end IsName

/-! ## Types as parts of a list -/

namespace IsType

variable {t : Text}

theorem of_word (hne : t ≠ []) (h : ∀ s ∈ t, s.isWord) : IsType t :=
  .name ⟨false, [t], List.cons_ne_nil _ _, List.forall_mem_singleton.2 ⟨hne, h⟩, rfl⟩

/-- A type closes what it opens, and a comma stands in brackets or quotes only. -/
theorem closed (h : IsType t) : Closed [.char ','] t := by
  have hblank {w : Text} (hw : isBlank w) : Closed [.char ','] w := .of_isBlank hw (by decide)
  have hcolon : Sym.char ':' ∉ delimiters ++ [.char ','] := by decide
  induction h with
  | name h => exact .of_class h.isPathSym (by decide)
  | number hsign _ h =>
      have hsigns : ∀ s ∈ [Sym.char '-', .char '+'], s ∉ delimiters ++ [.char ','] := by decide
      exact .cons (hsigns _ hsign) (.of_class h (by decide))
  | symbol _ _ h => exact .cons hcolon h
  | quotedSymbol hquote h => exact .cons hcolon (.quoted hquote h .nil)
  | string hquote h => exact .quoted hquote h .nil
  | bracketed ho hc h => exact .between ho hc h
  | applied _ hw ho hc h ih => exact ih.append ((hblank hw).append (.between ho hc h))
  | optional _ hw ih => exact ih.append ((hblank hw).append (.of_notMem (by decide)))
  | proc h hw _ ih =>
      have harrow : Closed [.char ','] (Text.ofString "->") := .of_notMem (by decide)
      have hcaret : Sym.char '^' ∉ delimiters ++ [.char ','] := by decide
      exact ((Closed.cons hcaret (h.append harrow)).append (hblank hw)).append ih
  | joined _ _ hw hw' hop iha ihb =>
      have hops : ∀ s ∈ [Sym.char '|', .char '&'], s ∉ delimiters ++ [.char ','] := by decide
      have hmiddle := (hblank hw).append (.cons (hops _ hop) .nil)
      exact ((iha.append hmiddle).append (hblank hw')).append ihb

/-- A type has no white space around it. -/
theorem isTrimmed (h : IsType t) : IsTrimmed t := by
  have hopening {o : Sym} (ho : isOpening o) : o.isBlank = false :=
    isBlank_of_mem_delimiters (mem_delimiters_of_opening ho)
  have hclosing {c : Sym} (hc : isClosing c) : c.isBlank = false :=
    isBlank_of_mem_delimiters (mem_delimiters_of_closing hc)
  induction h with
  | name h => exact .of_not_blank h.ne_nil h.isBlank_eq_false
  | number hsign _ h =>
      have hsigns : ∀ s ∈ [Sym.char '-', .char '+'], s.isBlank = false := by decide
      exact .of_not_blank (List.cons_ne_nil _ _) (List.forall_mem_cons.2
        ⟨hsigns _ hsign, fun s hs => Sym.isBlank_eq_false_of_isWord (h s hs)⟩)
  | symbol _ hblank _ =>
      exact .of_not_blank (List.cons_ne_nil _ _) (List.forall_mem_cons.2 ⟨rfl, hblank⟩)
  | @quotedSymbol quote content hquote _ =>
      have hquote := isBlank_of_mem_delimiters (mem_delimiters_of_quote hquote)
      exact .between (a := .char ':') rfl hquote (quote :: content)
  | string hquote _ =>
      have hquote := isBlank_of_mem_delimiters (mem_delimiters_of_quote hquote)
      exact .between hquote hquote _
  | bracketed ho hc _ => exact .between (hopening ho) (hclosing hc) _
  | @applied t w o c inner _ _ ho hc _ ih =>
      have hlast := IsTrimmed.between (hopening ho) (hclosing hc) inner
      rw [← List.append_assoc]
      exact ih.append hlast w
  | @optional t w _ _ ih =>
      rw [← List.append_assoc]
      exact ih.append (.singleton rfl) w
  | @proc parameters w result _ _ _ ih =>
      have hcaret : IsTrimmed [Sym.char '^'] := .singleton rfl
      simpa using hcaret.append ih (parameters ++ Text.ofString "->" ++ w)
  | @joined a b w w' op _ _ _ _ _ iha ihb =>
      simpa using iha.append ihb (w ++ [op] ++ w')

/-- A type begins neither with a star nor with a question mark. -/
theorem head_notMem (h : IsType t) : ∀ s ∈ t.head?, s ∉ [Sym.char '*', .char '?'] := by
  have hmarks : ∀ s ∈ [Sym.char '*', .char '?'], s ∉ delimiters := by decide
  -- Where a type stands in front of something else, its first symbol decides.
  have happend {a : Text} (ha : IsType a) (hhead : ∀ s ∈ a.head?, s ∉ [Sym.char '*', .char '?'])
      (u : Text) : ∀ s ∈ (a ++ u).head?, s ∉ [Sym.char '*', .char '?'] := by
    rwa [List.head?_append_of_ne_nil _ ha.isTrimmed.ne_nil]
  have hcons {s : Sym} (hs : s ∉ [Sym.char '*', .char '?']) (u : Text) :
      ∀ c ∈ (s :: u).head?, c ∉ [Sym.char '*', .char '?'] := by
    intro c hc
    rwa [← Option.some.inj hc]
  induction h with
  | name h =>
      intro s hs
      exact notMem_of_class (h.isPathSym s (List.mem_of_mem_head? hs)) (by decide)
  | number hsign =>
      have hsigns : ∀ s ∈ [Sym.char '-', .char '+'], s ∉ [Sym.char '*', .char '?'] := by decide
      exact hcons (hsigns _ hsign) _
  | symbol | quotedSymbol => exact hcons (by decide) _
  | string hquote => exact hcons (fun hmem => hmarks _ hmem (mem_delimiters_of_quote hquote)) _
  | bracketed ho => exact hcons (fun hmem => hmarks _ hmem (mem_delimiters_of_opening ho)) _
  | applied ht _ _ _ _ ih => exact happend ht ih _
  | optional ht _ ih => exact happend ht ih _
  | proc =>
      simp only [List.cons_append]
      exact hcons (by decide) _
  | @joined a b w w' op ha _ _ _ _ ih _ =>
      simp only [List.append_assoc]
      exact happend ha ih _

end IsType

/-! ## Labels -/

/-- A word at the beginning has no single colon behind it. -/
def Unlabelled (t : Text) : Prop :=
  ∀ word rest, t = word ++ .char ':' :: rest → word ≠ [] → (∀ s ∈ word, s.isWord) →
    rest.head? = some (.char ':')

namespace Unlabelled

variable {t u : Text}

theorem of_head (h : ∀ s ∈ t.head?, s.isWord = false) : Unlabelled t := by
  rintro word rest rfl hne hword
  obtain ⟨s, word, rfl⟩ := List.exists_cons_of_ne_nil hne
  have hs := h s rfl
  rw [hword s (List.mem_cons_self ..)] at hs
  cases hs

theorem append (h : Unlabelled t) (hu : ∀ s ∈ u.head?, s.isWord = false ∧ s ≠ .char ':') :
    Unlabelled (t ++ u) := by
  intro word rest heq hne hword
  rcases List.append_eq_append_iff.1 heq with ⟨v, rfl, hv⟩ | ⟨v, rfl, hv⟩
  · -- The colon is behind `t`, so that `u` begins with it or with a symbol of the word.
    cases v with
    | nil =>
        rw [List.nil_append] at hv
        exact absurd rfl (hu (.char ':') (by rw [hv]; rfl)).2
    | cons s v =>
        have hs := hword s (List.mem_append_right _ (List.mem_cons_self ..))
        rw [(hu s (by rw [hv]; rfl)).1] at hs
        cases hs
  · cases v with
    | nil => exact absurd rfl (hu (.char ':') (by rw [← List.nil_append u, ← hv]; rfl)).2
    | cons s v =>
        obtain ⟨rfl, rfl⟩ := List.cons.inj hv
        have hhead := h word v rfl hne hword
        exact List.head?_append_of_ne_nil v (by rintro rfl; cases hhead) ▸ hhead

/-- A word with two colons behind it. -/
theorem word_append {w : Text} (hw : ∀ s ∈ w, s.isWord) (u : Text) :
    Unlabelled (w ++ .char ':' :: .char ':' :: u) := by
  have hcolon {t : Text} (ht : ∀ s ∈ t, s.isWord) : Sym.char ':' ∉ t := fun hmem =>
    absurd (ht _ hmem) (by decide)
  intro word rest heq _ hword
  rcases List.append_eq_append_iff.1 heq with ⟨v, rfl, hv⟩ | ⟨v, rfl, hv⟩
  · cases v with
    | nil => exact (List.cons.inj hv).2 ▸ rfl
    | cons s v =>
        obtain ⟨rfl, -⟩ := List.cons.inj hv
        exact absurd (by simp) (hcolon hword)
  · cases v with
    | nil => exact (List.cons.inj hv).2 ▸ rfl
    | cons s v =>
        obtain ⟨rfl, -⟩ := List.cons.inj hv
        exact absurd (by simp) (hcolon hw)

end Unlabelled

theorem not_isWord_of_isBlank {s : Sym} (h : s.isBlank) : s.isWord = false ∧ s ≠ .char ':' := by
  refine ⟨Bool.eq_false_iff.2 fun hword => ?_, ?_⟩
  · rw [Sym.isBlank_eq_false_of_isWord hword] at h
    cases h
  · rintro rfl
    exact absurd h (by decide)

theorem IsName.unlabelled {t : Text} (h : IsName t) : Unlabelled t := by
  obtain ⟨anchored, words, hne, hwords, rfl⟩ := h
  cases anchored with
  | true =>
      refine .of_head fun s hs => ?_
      rw [← Option.some.inj hs]
      decide
  | false =>
      obtain ⟨w, rest, rfl⟩ := List.exists_cons_of_ne_nil hne
      have hw := (hwords w (List.mem_cons_self ..)).2
      cases rest with
      | cons v rest =>
          have hall := Unlabelled.word_append hw (Text.join "::" (v :: rest))
          simpa [anchoredPath, Text.join, Text.ofString] using hall
      | nil =>
          -- A word holds no colon at all.
          rintro word more rfl - -
          exact absurd (hw (.char ':') (by simp)) (by decide)

/-- A type is not taken for a label and what follows it. -/
theorem IsType.unlabelled {t : Text} (h : IsType t) : Unlabelled t := by
  have hcons {s : Sym} (hs : s.isWord = false) (u : Text) : Unlabelled (s :: u) :=
    .of_head fun c hc => by rwa [← Option.some.inj hc]
  have hopening {o : Sym} (ho : isOpening o) : o.isWord = false ∧ o ≠ .char ':' :=
    ⟨isWord_of_mem_delimiters (mem_delimiters_of_opening ho), by rintro rfl; cases ho⟩
  have hblank {w : Text} {s : Sym} (hw : isBlank w) (hs : s.isWord = false ∧ s ≠ .char ':')
      (u : Text) : ∀ c ∈ (w ++ s :: u).head?, c.isWord = false ∧ c ≠ .char ':' := by
    intro c hc
    cases w with
    | nil => rwa [← Option.some.inj hc]
    | cons b w =>
        obtain rfl := Option.some.inj hc
        exact not_isWord_of_isBlank ((List.all_eq_true.1 hw) _ (List.mem_cons_self ..))
  induction h with
  | name h => exact h.unlabelled
  | number hsign =>
      have hsigns : ∀ s ∈ [Sym.char '-', .char '+'], s.isWord = false := by decide
      exact hcons (hsigns _ hsign) _
  | symbol | quotedSymbol => exact hcons (by decide) _
  | string hquote => exact hcons (isWord_of_mem_delimiters (mem_delimiters_of_quote hquote)) _
  | bracketed ho => exact hcons (hopening ho).1 _
  | applied _ hw ho _ _ ih => exact ih.append (hblank hw (hopening ho) _)
  | optional _ hw ih => exact ih.append (hblank hw (by decide) _)
  | proc =>
      simp only [List.cons_append]
      exact hcons (by decide) _
  | @joined a b w w' op _ _ hw _ hop ih _ =>
      have hops : ∀ s ∈ [Sym.char '|', .char '&'], s.isWord = false ∧ s ≠ .char ':' := by decide
      simp only [List.append_assoc]
      exact ih.append (hblank hw (hops _ hop) _)

/-- A label is not read where there is none. -/
theorem keyword?_eq_none {t : Text} (h : Unlabelled ((after? "?" t).getD t)) :
    keyword? t = none := by
  rw [keyword?]
  generalize (after? "?" t).getD t = u at h ⊢
  dsimp only
  split
  · rename_i s name colon rest hword hrest
    rw [if_neg]
    rintro ⟨-, rfl, hcolon, -⟩
    refine hcolon (h (u.takeWhile Sym.isWord) rest ?_ (by rw [hword]; simp) fun c hc =>
      List.mem_takeWhile_imp hc)
    rw [← hrest, List.takeWhile_append_dropWhile]
  · rfl

/-! ## Names -/

/-- Does a type need a further operand? -/
def isUnfinished (t : Text) : Bool :=
  danglingEndings.any t.endsWith

/-- A last word that could be a name has no finished type before it. -/
def Nameless (t : Text) : Prop :=
  ∀ x n, t = x ++ n → isParameterName n → (∃ s ∈ x.getLast?, s.isBlank) → ¬ isBlank x →
    isUnfinished (trimRight x)

theorem isUnfinished_append {t : Text} (h : isUnfinished t) (u : Text) : isUnfinished (u ++ t) := by
  obtain ⟨e, he, hend⟩ := List.any_eq_true.1 h
  rw [endsWith, List.isSuffixOf_iff_suffix] at hend
  refine List.any_eq_true.2 ⟨e, he, ?_⟩
  rw [endsWith, List.isSuffixOf_iff_suffix]
  exact hend.trans (List.suffix_append u t)

/-- What is unfinished ends in an operator or an opening bracket. -/
theorem getLast?_of_isUnfinished {t : Text} (h : isUnfinished t) :
    ∃ s, t.getLast? = some s ∧ s.isWord = false ∧ s.isBlank = false := by
  have hlast : ∀ e ∈ danglingEndings, e.getLast?.any fun s => !s.isWord && !s.isBlank := by decide
  obtain ⟨e, he, hend⟩ := List.any_eq_true.1 h
  rw [endsWith, List.isSuffixOf_iff_suffix] at hend
  obtain ⟨u, rfl⟩ := hend
  obtain ⟨s, hs, hsym⟩ := (Option.any_eq_true ..).1 (hlast e he)
  have hne : e ≠ [] := by
    rintro rfl
    cases hs
  rw [Bool.and_eq_true, Bool.not_eq_true', Bool.not_eq_true'] at hsym
  exact ⟨s, by rw [List.getLast?_append_of_ne_nil _ hne, hs], hsym⟩

theorem isWord_of_isParameterName {n : Text} (h : isParameterName n) : ∀ s ∈ n, s.isWord := by
  cases n with
  | nil => cases h
  | cons s rest =>
      rw [isParameterName, Bool.and_eq_true, List.all_eq_true] at h
      refine List.forall_mem_cons.2 ⟨Sym.isWord_of_isNameStart ?_, h.2⟩
      cases s with
      | byte b => exact absurd h.1 Bool.false_ne_true
      | char c =>
          have hc : (c.isLower || c == '_') = true := h.1
          show ((c.isUpper || c.isLower) || c == '_') = true
          rw [Bool.or_assoc, hc, Bool.or_true]

theorem isTrimmed_of_isParameterName {n : Text} (h : isParameterName n) : IsTrimmed n := by
  refine .of_not_blank (fun hnil => ?_) fun s hs =>
    Sym.isBlank_eq_false_of_isWord (isWord_of_isParameterName h s hs)
  rw [hnil] at h
  cases h

namespace Nameless

variable {t : Text}

/-- A text without white space is one word. -/
theorem of_not_blank (h : ∀ s ∈ t, s.isBlank = false) : Nameless t := by
  rintro x n rfl - ⟨s, hs, hblank⟩
  rw [h s (List.mem_append_left _ (List.mem_of_getLast? hs))] at hblank
  cases hblank

/-- A name ends in a symbol of a word. -/
theorem of_last {s : Sym} (h : s.isWord = false) (u : Text) : Nameless (u ++ [s]) := by
  intro x n heq hn
  have hlast := congrArg List.getLast? heq
  have hne := (isTrimmed_of_isParameterName hn).ne_nil
  rw [List.getLast?_concat, List.getLast?_append_of_ne_nil _ hne] at hlast
  rw [isWord_of_isParameterName hn s (List.mem_of_getLast? hlast.symm)] at h
  cases h

/-- What follows something unfinished is read on its own. -/
theorem append {u w : Text} (hu : isUnfinished u) (hw : isBlank w) (ht : IsTrimmed t)
    (h : Nameless t) : Nameless (u ++ w ++ t) := by
  obtain ⟨last, hlast, hlastWord, hlastBlank⟩ := getLast?_of_isUnfinished hu
  have huw : trimRight (u ++ w) = u := by
    rw [trimRight_append, if_pos hw, trimRight_of_last fun c hc => ?_]
    rw [hlast] at hc
    rwa [← Option.some.inj hc]
  have hend : ∃ c ∈ (u ++ w).getLast?, c.isWord = false := by
    rcases List.eq_nil_or_concat w with rfl | ⟨w, c, rfl⟩
    · exact ⟨last, by rwa [List.append_nil], hlastWord⟩
    · have hc := List.all_eq_true.1 hw c (by simp)
      exact ⟨c, by simp, (not_isWord_of_isBlank hc).1⟩
  intro x n heq hn hblank hx
  rcases List.append_eq_append_iff.1 heq with ⟨v, rfl, rfl⟩ | ⟨v, huv, rfl⟩
  · by_cases hv : isBlank v
    · rwa [trimRight_append, if_pos hv, huw]
    · -- The name is cut off `t`.
      obtain ⟨s, hs, hsblank⟩ := hblank
      have hvne : v ≠ [] := by
        rintro rfl
        exact hv rfl
      rw [List.getLast?_append_of_ne_nil _ hvne] at hs
      rw [trimRight_append, if_neg hv]
      exact isUnfinished_append (h v n rfl hn ⟨s, hs, hsblank⟩ hv) _
  · by_cases hv : v = []
    · rwa [← List.append_nil x, ← hv, ← huv, huw]
    · -- The name would go back to what is before `t`.
      obtain ⟨c, hc, hword⟩ := hend
      rw [huv, List.getLast?_append_of_ne_nil _ hv] at hc
      have hmem := List.mem_append_left t (List.mem_of_getLast? hc)
      rw [isWord_of_isParameterName hn c hmem] at hword
      cases hword

end Nameless

/-- A type is not taken for another type and a name. -/
theorem IsType.nameless {t : Text} (h : IsType t) : Nameless t := by
  have hword {s : Sym} (hs : s ∈ delimiters) : s.isWord = false := isWord_of_mem_delimiters hs
  -- A last word behind white space is there only in the last type of a proc, a union or an
  -- intersection, and before that type stands an arrow or an operator.
  induction h with
  | name h => exact .of_not_blank h.isBlank_eq_false
  | number hsign _ h =>
      have hsigns : ∀ s ∈ [Sym.char '-', .char '+'], s.isBlank = false := by decide
      exact .of_not_blank (List.forall_mem_cons.2
        ⟨hsigns _ hsign, fun s hs => Sym.isBlank_eq_false_of_isWord (h s hs)⟩)
  | symbol _ hblank _ => exact .of_not_blank (List.forall_mem_cons.2 ⟨rfl, hblank⟩)
  | @quotedSymbol quote content hquote _ =>
      exact .of_last (hword (mem_delimiters_of_quote hquote)) (.char ':' :: quote :: content)
  | @string quote content hquote _ =>
      exact .of_last (hword (mem_delimiters_of_quote hquote)) (quote :: content)
  | @bracketed o c inner _ hc _ =>
      exact .of_last (hword (mem_delimiters_of_closing hc)) (.char o :: inner)
  | @applied t w o c inner _ _ _ hc _ _ =>
      have hlast := Nameless.of_last (hword (mem_delimiters_of_closing hc))
        (t ++ w ++ .char o :: inner)
      simpa [between] using hlast
  | @optional t w =>
      have hlast := Nameless.of_last (s := .char '?') (by decide) (t ++ w)
      simpa using hlast
  | @proc parameters w result _ hw hresult ih =>
      have harrow : isUnfinished (.char '^' :: (parameters ++ Text.ofString "->")) :=
        isUnfinished_append (t := Text.ofString "->") (by decide) (.char '^' :: parameters)
      exact .append harrow hw hresult.isTrimmed ih
  | @joined a b w w' op _ hb _ hw' hop _ ih =>
      have hops : ∀ s ∈ [Sym.char '|', .char '&'], isUnfinished [s] := by decide
      have hop := isUnfinished_append (isUnfinished_append (hops op hop) w) a
      exact .append hop hw' hb.isTrimmed ih

/-! ## Positional parameters -/

/-- A symbol of a word in the wider sense, which white space ends. -/
def isInWord (s : Sym) : Bool :=
  !s.isBlank

namespace Positional

/-- Where a text ends in a word with white space before it, the word may be cut off. -/
theorem ofText_eq {t : Text} (ht : trim t = t) :
    ofText t =
      let name := t.rtakeWhile isInWord
      let type := trimRight (t.rdropWhile isInWord)
      if !type.isEmpty && isParameterName name && !isUnfinished type then ⟨type, some name⟩
      else ⟨t, none⟩ := by
  rw [ofText, ht]
  rfl

theorem ofText_of_nameless {t : Text} (ht : IsTrimmed t) (h : Nameless t) :
    ofText t = ⟨t, none⟩ := by
  rw [ofText_eq ht.trim_eq]
  have hsplit : t.rdropWhile isInWord ++ t.rtakeWhile isInWord = t :=
    List.rdropWhile_append_rtakeWhile
  have hlast := List.rdropWhile_last_not isInWord t
  generalize t.rdropWhile isInWord = x at hsplit hlast ⊢
  generalize t.rtakeWhile isInWord = n at hsplit ⊢
  dsimp only
  rw [if_neg]
  intro hcut
  simp only [Bool.and_eq_true, Bool.not_eq_true', List.isEmpty_eq_false_iff] at hcut
  obtain ⟨⟨htype, hn⟩, hfinished⟩ := hcut
  have hx : ¬ isBlank x := by
    intro hblank
    have hnil := trimRight_append [] x
    rw [if_pos hblank] at hnil
    exact htype hnil
  have hne : x ≠ [] := by
    rintro rfl
    exact hx rfl
  have hend : ∃ s ∈ x.getLast?, s.isBlank :=
    ⟨x.getLast hne, List.getLast?_eq_some_getLast hne, by simpa [isInWord] using hlast hne⟩
  rw [h x n hsplit.symm hn hend hx] at hfinished
  cases hfinished

theorem ofText_name {t n : Text} (ht : IsTrimmed t) (hn : isParameterName n) :
    ofText (t ++ .char ' ' :: n) =
      if isUnfinished t then ⟨t ++ .char ' ' :: n, none⟩ else ⟨t, some n⟩ := by
  have hname := isTrimmed_of_isParameterName hn
  have hall : ∀ s ∈ n.reverse, isInWord s := fun s hs => by
    have hword := isWord_of_isParameterName hn s (List.mem_reverse.1 hs)
    rw [isInWord, Sym.isBlank_eq_false_of_isWord hword]
    rfl
  have hspace : ¬ isInWord (.char ' ') := by decide
  -- Read from the end, the name comes first, and the space before it ends it.
  have hreverse : (t ++ .char ' ' :: n).reverse = n.reverse ++ .char ' ' :: t.reverse := by simp
  have htrim : trim (t ++ .char ' ' :: n) = t ++ .char ' ' :: n := by
    have hall := ht.append hname [.char ' ']
    rw [List.append_assoc] at hall
    exact hall.trim_eq
  have htake : (t ++ .char ' ' :: n).rtakeWhile isInWord = n := by
    rw [List.rtakeWhile, hreverse, List.takeWhile_append_of_pos hall,
      List.takeWhile_cons_of_neg hspace, List.append_nil, List.reverse_reverse]
  have hdrop : (t ++ .char ' ' :: n).rdropWhile isInWord = t ++ [.char ' '] := by
    rw [List.rdropWhile, hreverse, List.dropWhile_append_of_pos hall,
      List.dropWhile_cons_of_neg hspace, List.reverse_cons, List.reverse_reverse]
  have htype : trimRight (t ++ [.char ' ']) = t := by
    rw [trimRight_append, if_pos (by decide), trimRight_of_last ht.last]
  rw [ofText_eq htrim]
  dsimp only
  rw [htake, hdrop, htype]
  cases h : isUnfinished t <;> simp [hn, ht.ne_nil]

end Positional

end RubyDoc.Signature
