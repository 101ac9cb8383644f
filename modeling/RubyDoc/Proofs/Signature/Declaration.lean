import Mathlib.Data.List.Infix
import RubyDoc.Signature.Declaration
import RubyDoc.Proofs.Signature.TypeExpr
import RubyDoc.Proofs.Text.Search
import RubyDoc.Proofs.Text.Trim

/-!
# Reading one line

What the reader takes a line for, by how the line is put together: a keyword, a space, and then what
the keyword asks for.  No keyword begins another one, so the first word of a line decides which of
the four readings can apply.  White space between the colon and the type is passed over; the type
is whatever is left.
-/

namespace RubyDoc.Signature

open Outline Text

namespace Declaration

/-! ## Keywords -/

/-- Neither of two texts begins the other one. -/
def Apart (first other : Text) : Prop :=
  ¬ first <+: other ∧ ¬ other <+: first

instance (first other : Text) : Decidable (Apart first other) :=
  inferInstanceAs (Decidable (_ ∧ _))

theorem after?_eq_none {keyword first : Text} (h : Apart keyword first) (rest : Text) :
    after? keyword (first ++ rest) = none := by
  cases hafter : after? keyword (first ++ rest) with
  | none => rfl
  | some more =>
      have heq := after?_eq_some_iff.1 hafter
      rcases List.prefix_or_prefix_of_prefix (List.prefix_append first rest)
          (heq ▸ List.prefix_append keyword more) with hpre | hpre
      · exact absurd hpre h.2
      · exact absurd hpre h.1

theorem afterKeyword?_eq_none {keyword first : Text} (h : Apart keyword first) (rest : Text) :
    afterKeyword? keyword (first ++ rest) = none := by
  rw [afterKeyword?, after?_eq_none h]

theorem afterKeyword?_append (keyword : Text) {t : Text}
    (h : ∀ s, t.head? = some s → s.isBlank = false) :
    afterKeyword? keyword (keyword ++ .char ' ' :: t) = some t := by
  rw [afterKeyword?, after?_append]
  exact congrArg some (trimLeft_of_head h)

/-- Among readings that are tried in turn, the one whose keyword stands there answers. -/
theorem findSome?_of_apart {α β : Type} (keyword : α → Text) {ks : List α}
    (hks : ks.Pairwise fun k k' => Apart (keyword k) (keyword k')) {k : α} (hk : k ∈ ks)
    {f : α → Option β} (hnone : ∀ k', Apart (keyword k') (keyword k) → f k' = none) {b : β}
    (hb : f k = some b) : ks.findSome? f = some b := by
  obtain ⟨before, later, rfl⟩ := List.append_of_mem hk
  obtain ⟨-, -, hbefore⟩ := List.pairwise_append.1 hks
  exact List.findSome?_eq_some_iff.2 ⟨before, k, later, rfl, hb, fun k' hk' =>
    hnone k' (hbefore k' hk' k List.mem_cons_self)⟩

theorem opening?_eq_none {first : Text} (h : ∀ kind ∈ BlockKind.all, Apart kind.keyword first)
    (rest : Text) : opening? (first ++ rest) = none := by
  refine List.findSome?_eq_none_iff.2 fun kind hkind => ?_
  rw [afterKeyword?_eq_none (h kind hkind)]
  rfl

theorem closing?_eq_none {first : Text} (h : Apart "end" first) (rest : Text) :
    closing? (first ++ rest) = none := by
  rw [closing?, after?_eq_none h]

theorem method?_eq_none {first : Text} (h : Apart "def" first) (rest : Text) :
    method? (first ++ rest) = none := by
  rw [method?, afterKeyword?_eq_none h]
  rfl

theorem attribute?_eq_none {first : Text} (h : ∀ k ∈ attributeKeywords, Apart k.1 first)
    (rest : Text) : attribute? (first ++ rest) = none := by
  refine List.findSome?_eq_none_iff.2 fun k hk => ?_
  simp only [afterKeyword?_eq_none (h k hk)]
  rfl

/-! ## Blocks -/

/-- A path with a name in front of its first symbol that is no colon. -/
theorem path?_eq {t : Text} (hhead : ((after? "::" t).getD t).head?.any Sym.isNameStart)
    (hall : ∀ s ∈ t, isPathSym s) : path? t = some t := by
  rw [path?, if_pos hhead, List.takeWhile_eq_self_iff.2 hall]

/-- A line ends its block only with an `end` of its own. -/
theorem endsBlock_eq_false {before word : Text} (hword : ∀ s ∈ word, s.isBlank = false)
    (hne : word ≠ "end") : endsBlock (before ++ .char ' ' :: word) = false := by
  -- The last word is what stands before the first white space from the end.
  have hlast : (before ++ .char ' ' :: word).reverse.takeWhile (fun s => !s.isBlank) =
      word.reverse := by
    have hpos : ∀ s ∈ word.reverse, (!s.isBlank) = true := fun s hs => by
      rw [hword s (List.mem_reverse.1 hs), Bool.not_false]
    rw [List.reverse_append, List.reverse_cons, List.append_assoc,
      List.takeWhile_append_of_pos hpos]
    exact List.append_nil _
  rw [endsBlock]
  split
  · rename_i d n e s rest hrev
    refine Bool.eq_false_iff.2 fun hends => hne ?_
    rw [Bool.and_eq_true, decide_eq_true_eq] at hends
    obtain ⟨hend, hs⟩ := hends
    obtain ⟨rfl, rfl, rfl⟩ : e = .char 'e' ∧ n = .char 'n' ∧ d = .char 'd' := by
      simpa [Text.ofString] using hend
    have hd : (Sym.char 'd').isBlank = false := by decide
    have hn : (Sym.char 'n').isBlank = false := by decide
    have he : (Sym.char 'e').isBlank = false := by decide
    have hthree : [.char 'd', .char 'n', .char 'e'] = word.reverse := by
      rw [← hlast, hrev]
      simp [hd, hn, he, hs]
    exact List.reverse_eq_iff.1 hthree.symm
  · rfl

theorem ofLine_opening (kind : BlockKind) {name : Text}
    (hhead : ((after? "::" name).getD name).head?.any Sym.isNameStart)
    (hall : ∀ s ∈ name, isPathSym s) (hend : name ≠ "end") :
    ofLine (kind.keyword ++ .char ' ' :: name) = .opening ⟨kind, name⟩ false := by
  have hblank : ∀ s ∈ name, s.isBlank = false := fun s hs =>
    isBlank_eq_false_of_isPathSym (hall s hs)
  have hopening : opening? (kind.keyword ++ .char ' ' :: name) =
      some (.opening ⟨kind, name⟩ false) := by
    refine findSome?_of_apart BlockKind.keyword (k := kind) (by decide) ?_ ?_ ?_
    · cases kind <;> decide
    · intro kind' h
      rw [afterKeyword?_eq_none h]
      rfl
    · rw [afterKeyword?_append _ fun s hs => hblank s (List.mem_of_mem_head? hs),
        Option.bind_eq_bind, Option.bind_some, path?_eq hhead hall, endsBlock_eq_false hblank hend]
      rfl
  rw [ofLine, hopening]
  rfl

theorem ofLine_end : ofLine "end" = .closing := by
  decide

/-- A further overload is no declaration of its own. -/
theorem ofLine_bar (rest : Text) : ofLine ("|" ++ rest) = .other := by
  rw [ofLine, opening?_eq_none (by decide), closing?_eq_none (by decide),
    method?_eq_none (by decide), attribute?_eq_none (by decide)]
  rfl

/-- No declaration begins with a bar. -/
theorem startsWith_bar_eq_false {line : Text} (h : ofLine line ≠ .other) :
    line.startsWith "|" = false := by
  refine Bool.eq_false_iff.2 fun hbar => h ?_
  obtain ⟨rest, rfl⟩ := startsWith_iff.1 hbar
  exact ofLine_bar rest

/-! ## Methods -/

theorem nameAndType?_append {name : Text} (hne : name ≠ [])
    (hname : ∀ s ∈ name, s.isBlank = false ∧ s ≠ .char ':') {w : Text} (hw : isBlank w)
    {type : Text} (htype : ∀ s, type.head? = some s → s.isBlank = false) :
    nameAndType? (name ++ .char ':' :: (w ++ type)) = some (name, type) := by
  induction name with
  | nil => exact absurd rfl hne
  | cons s name ih =>
      obtain ⟨⟨hs, -⟩, hrest⟩ := List.forall_mem_cons.1 hname
      rw [List.cons_append, nameAndType?, hs, if_neg Bool.false_ne_true]
      -- The colon ends the name only behind its last symbol.
      cases name with
      | nil =>
          have hcolon : trimLeft (.char ':' :: (w ++ type)) = .char ':' :: (w ++ type) :=
            trimLeft_of_head fun c hc => by obtain rfl := Option.some.inj hc; decide
          rw [List.nil_append, hcolon]
          simp only [if_true]
          rw [trimLeft_append, if_pos hw, trimLeft_of_head htype]
      | cons r name =>
          obtain ⟨hblank, hr⟩ := (List.forall_mem_cons.1 hrest).1
          have hleft : trimLeft (r :: name ++ .char ':' :: (w ++ type)) =
              r :: name ++ .char ':' :: (w ++ type) :=
            trimLeft_of_head fun c hc => by rwa [← Option.some.inj hc]
          rw [hleft]
          simp only [List.cons_append, if_neg hr]
          rw [← List.cons_append, ih (List.cons_ne_nil _ _) hrest]
          rfl

/-- A name without a dot has no receiver in front. -/
theorem after?_receiver_eq_none (receiver : Text) (hdot : .char '.' ∈ receiver)
    (hcolon : .char ':' ∉ receiver) {name : Text} (hname : .char '.' ∉ name) (rest : Text) :
    after? receiver (name ++ .char ':' :: rest) = none := by
  rw [List.append_cons]
  -- Either the dot of the receiver were in the name, or the colon behind the name in the receiver.
  refine after?_eq_none ⟨fun hpre => ?_, fun hpre => ?_⟩ rest
  · rcases List.mem_append.1 (hpre.subset hdot) with hmem | hmem
    · exact hname hmem
    · exact absurd hmem (by decide)
  · exact hcolon (hpre.subset (by simp))

/-- A line that declares a method, for each receiver. -/
theorem ofLine_method {receiver : Text} {scopes : List Scope}
    (hreceiver : (receiver, scopes) ∈ receivers) {name : Text} (hne : name ≠ [])
    (hname : ∀ s ∈ name, s.isBlank = false ∧ s ≠ .char ':' ∧ s ≠ .char '.') {w : Text}
    (hw : isBlank w) {type : Text} (htype : ∀ s, type.head? = some s → s.isBlank = false) :
    ofLine ("def" ++ .char ' ' :: (receiver ++ (name ++ .char ':' :: (w ++ type)))) =
      .method scopes name type := by
  have hread := nameAndType?_append hne (fun s hs => ⟨(hname s hs).1, (hname s hs).2.1⟩) hw htype
  have hdot : Sym.char '.' ∉ name := fun hs => (hname _ hs).2.2 rfl
  have hmethod : method? ("def" ++ .char ' ' :: (receiver ++ (name ++ .char ':' :: (w ++ type)))) =
      some (.method scopes name type) := by
    simp only [receivers, List.mem_cons, List.not_mem_nil, or_false, Prod.mk.injEq] at hreceiver
    rcases hreceiver with ⟨rfl, rfl⟩ | ⟨rfl, rfl⟩ | ⟨rfl, rfl⟩
    · rw [method?, afterKeyword?_append _ fun s hs => by obtain rfl := Option.some.inj hs; decide]
      simp [receivers, hread]
    · -- `self.` is tried first, and does not begin `self?.`.
      have hself : after? "self." (Text.ofString "self?." ++ (name ++ .char ':' :: (w ++ type))) =
          none := after?_eq_none (by decide) _
      rw [method?, afterKeyword?_append _ fun s hs => by obtain rfl := Option.some.inj hs; decide]
      simp [receivers, hself, hread]
    · -- Without a receiver there is no dot in front of the colon.
      have hself := after?_receiver_eq_none "self." (by decide) (by decide) hdot
        (w ++ type)
      have hboth := after?_receiver_eq_none "self?." (by decide) (by decide) hdot
        (w ++ type)
      have hhead : ∀ s, (name ++ .char ':' :: (w ++ type)).head? = some s → s.isBlank = false := by
        intro s hs
        rw [List.head?_append_of_ne_nil _ hne] at hs
        exact (hname s (List.mem_of_mem_head? hs)).1
      have hempty (t : Text) : after? (Text.ofString "") t = some t := rfl
      rw [method?, show Text.ofString "" ++ (name ++ .char ':' :: (w ++ type)) =
        name ++ .char ':' :: (w ++ type) from rfl, afterKeyword?_append _ hhead]
      simp [receivers, hself, hboth, hempty, hread]
  rw [ofLine, opening?_eq_none (by decide), closing?_eq_none (by decide), hmethod]
  rfl

/-! ## Attributes -/

/-- What stands before the name of an attribute. -/
def attributeReceiver : Scope → Text
  | .onInstance => ""
  | .onClass => "self."

theorem attributeName_append {name : Text} (hname : ∀ s ∈ name, s.isWord) (rest : Text) :
    attributeName (name ++ .char ':' :: rest) = (name, .char ':' :: rest) := by
  have hcolon : (Sym.char ':').isWord = false := by decide
  rw [attributeName, List.takeWhile_append_of_pos hname, List.dropWhile_append_of_pos hname,
    List.takeWhile_cons_of_neg (by simp [hcolon]), List.dropWhile_cons_of_neg (by simp [hcolon]),
    List.append_nil]
  rfl

/-- What follows the keyword decides on all of an attribute but its access. -/
theorem attribute?_append {keyword : Text} {access : Access}
    (hkeyword : (keyword, access) ∈ attributeKeywords) {rest name type w : Text}
    (hrest : ∀ s, rest.head? = some s → s.isBlank = false)
    (hname : attributeName ((after? "self." rest).getD rest) = (name, .char ':' :: (w ++ type)))
    (hhead : name.head?.any Sym.isWord) (hw : isBlank w) (htype : IsTrimmed type) :
    attribute? (keyword ++ .char ' ' :: rest) =
      some (.attribute access (if (after? "self." rest).isSome then .onClass else .onInstance)
        name type) := by
  have hvariable : afterVariable? (trimLeft (.char ':' :: (w ++ type))) =
      some (.char ':' :: (w ++ type)) := by
    rw [trimLeft_of_head fun s hs => by obtain rfl := Option.some.inj hs; decide]
    rfl
  have hcolon : after? ":" (.char ':' :: (w ++ type)) = some (w ++ type) := rfl
  have hleft : trimLeft (w ++ type) = type := by
    rw [trimLeft_append, if_pos hw, trimLeft_of_head htype.head]
  refine findSome?_of_apart Prod.fst (by decide) hkeyword ?_ ?_
  · intro k h
    simp only [afterKeyword?_eq_none h]
    rfl
  · simp [afterKeyword?_append keyword hrest, hname, hvariable, hcolon, hleft, hhead, htype.ne_nil]

/-- A line that declares an attribute, for each keyword. -/
theorem ofLine_attribute {keyword : Text} {access : Access}
    (hkeyword : (keyword, access) ∈ attributeKeywords) (scope : Scope) {name : Text}
    (hne : name ≠ []) (hname : ∀ s ∈ name, s.isWord) {w : Text} (hw : isBlank w) {type : Text}
    (htype : IsTrimmed type) :
    ofLine (keyword ++ .char ' ' ::
        (attributeReceiver scope ++ (name ++ .char ':' :: (w ++ type)))) =
      .attribute access scope name type := by
  obtain ⟨c, more, rfl⟩ := List.exists_cons_of_ne_nil hne
  have hhead : (c :: more).head?.any Sym.isWord := hname c List.mem_cons_self
  have hcut := attributeName_append hname (w ++ type)
  have hattribute : attribute? (keyword ++ .char ' ' ::
      (attributeReceiver scope ++ (c :: more ++ .char ':' :: (w ++ type)))) =
      some (.attribute access scope (c :: more) type) := by
    cases scope with
    | onInstance =>
        have hdot : Sym.char '.' ∉ c :: more := fun hs => absurd (hname _ hs) (by decide)
        have hself : after? "self." (attributeReceiver .onInstance ++
            (c :: more ++ .char ':' :: (w ++ type))) = none :=
          after?_receiver_eq_none _ (by decide) (by decide) hdot _
        rw [attribute?_append hkeyword (fun s hs => ?_) (by rw [hself]; exact hcut) hhead hw htype,
          hself]
        · rfl
        · obtain rfl := Option.some.inj hs
          exact Sym.isBlank_eq_false_of_isWord hhead
    | onClass =>
        have hself : after? "self." (attributeReceiver .onClass ++
            (c :: more ++ .char ':' :: (w ++ type))) =
              some (c :: more ++ .char ':' :: (w ++ type)) :=
          after?_append _ _
        rw [attribute?_append hkeyword (fun s hs => ?_) (by rw [hself]; exact hcut) hhead hw htype,
          hself]
        · rfl
        · obtain rfl := Option.some.inj hs
          decide
  have hapart : ∀ k ∈ attributeKeywords, (∀ kind ∈ BlockKind.all, Apart kind.keyword k.1) ∧
      Apart "end" k.1 ∧ Apart "def" k.1 := by
    decide
  obtain ⟨hkinds, hend, hdef⟩ := hapart _ hkeyword
  rw [ofLine, opening?_eq_none hkinds, closing?_eq_none hend, method?_eq_none hdef, hattribute]
  rfl

end Declaration

end RubyDoc.Signature
