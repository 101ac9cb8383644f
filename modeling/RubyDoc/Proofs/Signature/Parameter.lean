import RubyDoc.Proofs.Signature.TypeText

/-!
# Parameters are read back

A parameter as it is declared, how it is spelled, and what reading its text adds to a signature.  A
parameter is told apart by stars, by a label, and by its last word.  Two names are not found: one
behind a type that ends like an unfinished one, as the symbol of an operator does, and one before a
type with a line feed in it.  Such a name is taken for a part of the type (`Param.asRead`).
-/

namespace RubyDoc.Signature

open Text

/-- A parameter of a method type. -/
inductive Param where
  | positional (isOptional : Bool) (type : Text) (name : Option Text)
  | rest (type : Text) (name : Option Text)
  | keyword (isOptional : Bool) (name type : Text)
  | keywordRest (type : Text) (name : Option Text)
  deriving DecidableEq, Repr

/-- A label: a letter or underscore, and more of a word. -/
def IsLabel (t : Text) : Prop :=
  ∃ s rest, t = s :: rest ∧ s.isNameStart ∧ ∀ c ∈ rest, c.isWord

/-- A type with the name behind it, if there is one. -/
def declaration (type : Text) : Option Text → Text
  | none => type
  | some name => type ++ .char ' ' :: name

/-- A declaration as it is read: a name behind a type that seems to need a further operand is taken
for a part of the type. -/
def readAs (type : Text) (name : Option Text) : Positional :=
  if name.isSome && isUnfinished type then ⟨declaration type name, none⟩ else ⟨type, name⟩

/-- The question mark before what is optional. -/
def optionalMark (isOptional : Bool) : Text :=
  if isOptional then [.char '?'] else []

namespace Param

/-- How a parameter is spelled. -/
def render : Param → Text
  | positional isOptional type name => optionalMark isOptional ++ declaration type name
  | rest type name => .char '*' :: declaration type name
  | keyword isOptional name type =>
      optionalMark isOptional ++ (name ++ .char ':' :: .char ' ' :: type)
  | keywordRest type name => .char '*' :: .char '*' :: declaration type name

/-- The name and the type of a parameter that is documented by its name. -/
def named? : Param → Option (Text × Text)
  | positional _ type (some name) => some (name, type)
  | keyword _ name type => some (name, type)
  | _ => none

/-- The type of one element of a rest parameter. -/
def element? : Param → Option Text
  | rest type _ => some type
  | _ => none

/-- The type of one value of a keyword rest parameter. -/
def value? : Param → Option Text
  | keywordRest type _ => some type
  | _ => none

/-- The type is one, and the name is one. -/
def WellFormed : Param → Prop
  | positional _ type name => IsType type ∧ ∀ n ∈ name, isParameterName n
  | rest type name => IsType type ∧ ∀ n ∈ name, isParameterName n
  | keyword _ name type => IsType type ∧ IsLabel name
  | keywordRest type name => IsType type ∧ ∀ n ∈ name, isParameterName n

/-- A parameter as it is read.  A label before a type of more than one line is taken for a part of
the type. -/
def asRead : Param → Param
  | positional isOptional type name =>
      positional isOptional (readAs type name).type (readAs type name).name
  | rest type name => rest (readAs type name).type (readAs type name).name
  | keyword isOptional name type =>
      if .lineFeed ∈ type then positional isOptional (name ++ .char ':' :: .char ' ' :: type) none
      else keyword isOptional name type
  | keywordRest type name => keywordRest (readAs type name).type (readAs type name).name

/-- No name stands behind a type that seems to need a further operand, and no label before a type of
more than one line. -/
def Legible : Param → Prop
  | positional _ type name => name.isSome → isUnfinished type = false
  | rest type name => name.isSome → isUnfinished type = false
  | keyword _ _ type => .lineFeed ∉ type
  | keywordRest type name => name.isSome → isUnfinished type = false

instance : DecidablePred Legible
  | positional _ type name => inferInstanceAs (Decidable (name.isSome → isUnfinished type = false))
  | rest type name => inferInstanceAs (Decidable (name.isSome → isUnfinished type = false))
  | keyword _ _ type => inferInstanceAs (Decidable (.lineFeed ∉ type))
  | keywordRest type name => inferInstanceAs (Decidable (name.isSome → isUnfinished type = false))

theorem asRead_of_legible {p : Param} (h : p.Legible) : p.asRead = p := by
  have hread {type : Text} {name : Option Text} (h : name.isSome → isUnfinished type = false) :
      readAs type name = ⟨type, name⟩ := by
    cases name with
    | none => rfl
    | some n => rw [readAs, h rfl, Bool.and_false, if_neg Bool.false_ne_true]
  cases p with
  | positional | rest | keywordRest => rw [asRead, hread h]
  | keyword => exact if_neg h

end Param

/-! ## Declarations -/

section Declaration

variable {type : Text} {name : Option Text}

theorem isTrimmed_declaration (ht : IsType type) (hname : ∀ n ∈ name, isParameterName n) :
    IsTrimmed (declaration type name) := by
  cases name with
  | none => exact ht.isTrimmed
  | some n =>
      have hn := isTrimmed_of_isParameterName (hname n rfl)
      have hall := ht.isTrimmed.append hn [.char ' ']
      rwa [List.append_assoc] at hall

theorem closed_declaration (ht : IsType type) (hname : ∀ n ∈ name, isParameterName n) :
    Closed [.char ','] (declaration type name) := by
  cases name with
  | none => exact ht.closed
  | some n =>
      have hn : Closed [.char ','] n :=
        .of_class (isWord_of_isParameterName (hname n rfl)) (by decide)
      exact ht.closed.append (.cons (by decide) hn)

theorem head_declaration_notMem (ht : IsType type) :
    ∀ s ∈ (declaration type name).head?, s ∉ [Sym.char '*', .char '?'] := by
  cases name with
  | none => exact ht.head_notMem
  | some n =>
      rw [declaration, List.head?_append_of_ne_nil _ ht.isTrimmed.ne_nil]
      exact ht.head_notMem

theorem unlabelled_declaration (ht : IsType type) : Unlabelled (declaration type name) := by
  cases name with
  | none => exact ht.unlabelled
  | some n =>
      refine ht.unlabelled.append fun s hs => ?_
      rw [← Option.some.inj hs]
      decide

theorem ofText_declaration (ht : IsType type) (hname : ∀ n ∈ name, isParameterName n) :
    Positional.ofText (declaration type name) = readAs type name := by
  cases name with
  | none => exact Positional.ofText_of_nameless ht.isTrimmed ht.nameless
  | some n =>
      rw [declaration, Positional.ofText_name ht.isTrimmed (hname n rfl), readAs,
        Option.isSome_some, Bool.true_and]
      rfl

end Declaration

/-! ## Reading one parameter -/

theorem isTrimmed_optionalMark {t : Text} (h : IsTrimmed t) (isOptional : Bool) :
    IsTrimmed (optionalMark isOptional ++ t) := by
  cases isOptional with
  | false => exact h
  | true => exact (IsTrimmed.singleton (s := .char '?') rfl).append h []

theorem closed_optionalMark {cuts : List Sym} (hcuts : .char '?' ∉ delimiters ++ cuts)
    (isOptional : Bool) : Closed cuts (optionalMark isOptional) := by
  cases isOptional with
  | false => exact .nil
  | true => exact .cons hcuts .nil

section Reading

variable {f : Text → Text} {sig : Signature} {t : Text}

theorem head_optionalMark_ne_star (isOptional : Bool) (h : t.head? ≠ some (.char '*')) :
    (optionalMark isOptional ++ t).head? ≠ some (.char '*') := by
  cases isOptional with
  | false => exact h
  | true => exact fun h => absurd (Option.some.inj h) (by decide)

/-- The mark before what is optional is taken off. -/
theorem getD_after?_optionalMark (isOptional : Bool) (h : t.head? ≠ some (.char '?')) :
    (after? "?" (optionalMark isOptional ++ t)).getD (optionalMark isOptional ++ t) = t := by
  cases isOptional with
  | false =>
      show (after? [.char '?'] t).getD t = t
      rw [after?_eq_none_of_head h]
      rfl
  | true => rfl

/-- What no star stands before is a keyword or a positional parameter. -/
theorem addParameter_of_head (hne : t ≠ []) (h : t.head? ≠ some (.char '*')) :
    addParameter f sig t =
      match keyword? t with
      | some (name, type) => { sig with paramTypes := setType name (f type) sig.paramTypes }
      | none =>
          match (Positional.ofText ((after? "?" t).getD t)).name with
          | some name =>
              { sig with
                paramTypes := setType name
                  (f (Positional.ofText ((after? "?" t).getD t)).type) sig.paramTypes }
          | none => sig := by
  have htwo : after? (Text.ofString "**") t = none := after?_eq_none_of_head h _
  have hone : after? (Text.ofString "*") t = none := after?_eq_none_of_head h _
  rewrite [addParameter, if_neg (by simpa using hne), htwo, hone]
  rfl

/-- A label, and a type behind it, that may be marked as optional. -/
theorem keyword?_label {name type : Text} (hname : IsLabel name) (isOptional : Bool)
    (htype : IsTrimmed type) :
    keyword? (optionalMark isOptional ++ (name ++ .char ':' :: .char ' ' :: type)) =
      if .lineFeed ∈ type then none else some (name, type) := by
  obtain ⟨s, rest, rfl, hs, hrest⟩ := hname
  have hword := Sym.isWord_of_isNameStart hs
  have hall : ∀ c ∈ s :: rest, c.isWord := List.forall_mem_cons.2 ⟨hword, hrest⟩
  have hcolon : ¬ (Sym.char ':').isWord := by decide
  have hmark : (s :: rest ++ .char ':' :: .char ' ' :: type).head? ≠ some (.char '?') := by
    intro h
    rw [Option.some.inj h] at hword
    exact absurd hword (by decide)
  have htake : (s :: rest ++ .char ':' :: .char ' ' :: type).takeWhile Sym.isWord = s :: rest := by
    rw [List.takeWhile_append_of_pos hall, List.takeWhile_cons_of_neg hcolon, List.append_nil]
  have hdrop : (s :: rest ++ .char ':' :: .char ' ' :: type).dropWhile Sym.isWord =
      .char ':' :: .char ' ' :: type := by
    rw [List.dropWhile_append_of_pos hall, List.dropWhile_cons_of_neg hcolon]
  have htrim : trimLeft (.char ' ' :: type) = type := by
    rw [← List.singleton_append, trimLeft_append, if_pos (by decide), trimLeft_of_head htype.head]
  rw [keyword?, getD_after?_optionalMark isOptional hmark, htake, hdrop]
  dsimp only
  rw [htrim]
  by_cases hfeed : .lineFeed ∈ type
  · simp [hfeed]
  · simp [hfeed, hs, htype.ne_nil]

theorem setType_of_notMem {name type : Text} {types : List (Text × Text)}
    (h : name ∉ types.map Prod.fst) : setType name type types = types ++ [(name, type)] := by
  induction types with
  | nil => rfl
  | cons entry types ih =>
      rw [List.map_cons, List.mem_cons, not_or] at h
      rw [setType, if_neg (Ne.symm h.1), ih h.2, List.cons_append]

theorem addParameter_positional {type : Text} {name : Option Text} (ht : IsType type)
    (hname : ∀ n ∈ name, isParameterName n) (isOptional : Bool) :
    addParameter f sig (optionalMark isOptional ++ declaration type name) =
      match (readAs type name).name with
      | some n =>
          { sig with paramTypes := setType n (f (readAs type name).type) sig.paramTypes }
      | none => sig := by
  have hhead : ∀ s ∈ (declaration type name).head?, s ∉ [Sym.char '*', .char '?'] :=
    head_declaration_notMem ht
  have hmark := getD_after?_optionalMark isOptional fun h => hhead _ h (by decide)
  have hne := (isTrimmed_declaration ht hname).ne_nil
  have hstar : (optionalMark isOptional ++ declaration type name).head? ≠ some (.char '*') :=
    head_optionalMark_ne_star isOptional fun h => hhead _ h (by decide)
  have hkeyword : keyword? (optionalMark isOptional ++ declaration type name) = none :=
    keyword?_eq_none (by rw [hmark]; exact unlabelled_declaration ht)
  rw [addParameter_of_head (by simp [hne]) hstar, hkeyword, hmark, ofText_declaration ht hname]

theorem addParameter_rest {type : Text} {name : Option Text} (ht : IsType type)
    (hname : ∀ n ∈ name, isParameterName n) :
    addParameter f sig (.char '*' :: declaration type name) =
      { sig with restElement := some (f (readAs type name).type) } := by
  have htwo : after? (Text.ofString "**") (.char '*' :: declaration type name) = none :=
    after?_eq_none_of_head (fun h => head_declaration_notMem ht _ h (by decide)) []
  rw [addParameter, htwo, ← ofText_declaration ht hname]
  rfl

theorem addParameter_keywordRest {type : Text} {name : Option Text} (ht : IsType type)
    (hname : ∀ n ∈ name, isParameterName n) :
    addParameter f sig (.char '*' :: .char '*' :: declaration type name) =
      { sig with restValue := some (f (readAs type name).type) } := by
  rw [← ofText_declaration ht hname]
  rfl

/-- A type of more than one line is not taken for a type and a name, whatever stands before it. -/
theorem nameless_append_of_lineFeed {type : Text} (ht : IsType type) (hfeed : .lineFeed ∈ type)
    (u : Text) : Nameless (u ++ type) := by
  intro x n heq hn hblank hx
  -- The line feed is not in the name, so the name is cut off behind it.
  have hfeed_notMem : Sym.lineFeed ∉ n := fun hmem =>
    absurd (isWord_of_isParameterName hn _ hmem) (by decide)
  rcases List.append_eq_append_iff.1 heq with ⟨v, rfl, rfl⟩ | ⟨v, -, rfl⟩
  · have hv : ¬ isBlank v := by
      intro hv
      obtain ⟨s, v, rfl⟩ := List.exists_cons_of_ne_nil
        (List.ne_nil_of_mem ((List.mem_append.1 hfeed).resolve_right hfeed_notMem))
      have hs := ht.isTrimmed.head s rfl
      rw [List.all_eq_true.1 hv s (List.mem_cons_self ..)] at hs
      cases hs
    have hvne : v ≠ [] := by
      rintro rfl
      exact hv rfl
    rw [List.getLast?_append_of_ne_nil _ hvne] at hblank
    rw [trimRight_append, if_neg hv]
    exact isUnfinished_append (ht.nameless v n rfl hn hblank hv) u
  · exact absurd (List.mem_append_right _ hfeed) hfeed_notMem

theorem IsLabel.head {name : Text} (h : IsLabel name) (u : Text) :
    ∃ s rest, name ++ u = s :: rest ∧ s.isWord := by
  obtain ⟨s, rest, rfl, hs, -⟩ := h
  exact ⟨s, rest ++ u, rfl, Sym.isWord_of_isNameStart hs⟩

theorem isTrimmed_label {name type : Text} (hname : IsLabel name) (ht : IsTrimmed type) :
    IsTrimmed (name ++ .char ':' :: .char ' ' :: type) := by
  obtain ⟨s, rest, rfl, hs, -⟩ := hname
  have hblank := Sym.isBlank_eq_false_of_isWord (Sym.isWord_of_isNameStart hs)
  have hall := (IsTrimmed.singleton hblank).append ht (rest ++ [.char ':', .char ' '])
  simpa using hall

/-- A labelled type counts if it is on one line; otherwise nothing is read off it. -/
theorem addParameter_keyword {name type : Text} (hname : IsLabel name) (isOptional : Bool)
    (ht : IsType type) :
    addParameter f sig (optionalMark isOptional ++ (name ++ .char ':' :: .char ' ' :: type)) =
      if .lineFeed ∈ type then sig
      else { sig with paramTypes := setType name (f type) sig.paramTypes } := by
  have hkeyword := keyword?_label hname isOptional ht.isTrimmed
  have htrimmed := isTrimmed_label hname ht.isTrimmed
  have hhead {c : Sym} (hc : c.isWord = false) :
      (name ++ .char ':' :: .char ' ' :: type).head? ≠ some c := by
    obtain ⟨s, rest, heq, hs⟩ := hname.head (.char ':' :: .char ' ' :: type)
    rw [heq]
    rintro h
    rw [Option.some.inj h, hc] at hs
    cases hs
  have hstar := head_optionalMark_ne_star isOptional (hhead (c := .char '*') (by decide))
  rw [addParameter_of_head (by simp) hstar, hkeyword]
  by_cases hfeed : .lineFeed ∈ type
  · -- It is read as a positional parameter that has no name.
    have hnameless := nameless_append_of_lineFeed ht hfeed (name ++ [.char ':', .char ' '])
    rw [List.append_assoc] at hnameless
    have hread := Positional.ofText_of_nameless htrimmed hnameless
    rw [if_pos hfeed, if_pos hfeed, getD_after?_optionalMark isOptional (hhead (by decide))]
    dsimp only
    rw [hread]
  · rw [if_neg hfeed, if_neg hfeed]

/-- What a parameter adds to a signature, its name being new. -/
theorem addParameter_render {p : Param} (h : p.WellFormed)
    (hnew : ∀ e ∈ p.asRead.named?, e.1 ∉ sig.paramTypes.map Prod.fst) :
    addParameter f sig p.render =
      { sig with
        paramTypes := sig.paramTypes ++ p.asRead.named?.toList.map fun e => (e.1, f e.2)
        restElement := (p.asRead.element?.map f).or sig.restElement
        restValue := (p.asRead.value?.map f).or sig.restValue } := by
  cases p with
  | positional isOptional type name =>
      simp only [Param.asRead] at hnew ⊢
      rw [Param.render, addParameter_positional h.1 h.2]
      generalize readAs type name = read at hnew ⊢
      obtain ⟨type, _ | name⟩ := read
      · simp [Param.named?, Param.element?, Param.value?]
      · have htypes : setType name (f type) sig.paramTypes = _ := setType_of_notMem (hnew _ rfl)
        simp [Param.named?, Param.element?, Param.value?, htypes]
  | rest type name =>
      rw [Param.render, addParameter_rest h.1 h.2]
      simp [Param.asRead, Param.named?, Param.element?, Param.value?]
  | keyword isOptional name type =>
      rw [Param.render, addParameter_keyword h.2 isOptional h.1]
      by_cases hfeed : .lineFeed ∈ type
      · simp only [Param.asRead, if_pos hfeed]
        simp [Param.named?, Param.element?, Param.value?]
      · simp only [Param.asRead, if_neg hfeed] at hnew ⊢
        have htypes : setType name (f type) sig.paramTypes = _ := setType_of_notMem (hnew _ rfl)
        simp [Param.named?, Param.element?, Param.value?, htypes]
  | keywordRest type name =>
      rw [Param.render, addParameter_keywordRest h.1 h.2]
      simp [Param.asRead, Param.named?, Param.element?, Param.value?]

theorem filterMap_concat {α β : Type} (g : α → Option β) (l : List α) (a : α) :
    (l ++ [a]).filterMap g = l.filterMap g ++ (g a).toList := by
  rw [List.filterMap_append]
  cases h : g a <;> simp [h]

theorem getLast?_toList {α : Type} (o : Option α) : o.toList.getLast? = o := by
  cases o <;> rfl

/-- What all parameters make of a signature without parameters. -/
theorem foldl_addParameter (f : Text → Text) (returnType : Text) {ps : List Param}
    (h : ∀ p ∈ ps, p.WellFormed)
    (hnames : (((ps.map Param.asRead).filterMap Param.named?).map Prod.fst).Nodup) :
    (ps.map Param.render).foldl (addParameter f) { returnType } =
      { returnType
        paramTypes := ((ps.map Param.asRead).filterMap Param.named?).map
          fun e => (e.1, f e.2)
        restElement := ((ps.map Param.asRead).filterMap Param.element?).getLast?.map f
        restValue := ((ps.map Param.asRead).filterMap Param.value?).getLast?.map f } := by
  -- The parameters are added from the left, so the last one meets the names of all others.
  induction ps using List.reverseRecOn with
  | nil => rfl
  | append_singleton ps p ih =>
      simp only [List.map_append, List.map_singleton, filterMap_concat] at hnames ⊢
      obtain ⟨hfirst, -, hnew⟩ := List.nodup_append.1 hnames
      rw [List.foldl_append, ih (fun q hq => h q (List.mem_append_left _ hq)) hfirst,
        List.foldl_cons, List.foldl_nil, addParameter_render (h p (by simp)) fun e he hmem => ?_]
      · simp only [List.getLast?_append, getLast?_toList, Option.map_or]
      · rw [List.map_map] at hmem
        exact hnew e.1 hmem e.1 (List.mem_map_of_mem (Option.mem_toList.2 he)) rfl

end Reading

/-! ## Texts of parameters -/

namespace Param

variable {p : Param}

theorem closed_render (h : p.WellFormed) : Closed [.char ','] p.render := by
  have hstar : Sym.char '*' ∉ delimiters ++ [.char ','] := by decide
  have hmark (isOptional : Bool) : Closed [.char ','] (optionalMark isOptional) :=
    closed_optionalMark (by decide) isOptional
  cases p with
  | positional isOptional type name => exact (hmark isOptional).append (closed_declaration h.1 h.2)
  | rest type name => exact .cons hstar (closed_declaration h.1 h.2)
  | keyword isOptional name type =>
      obtain ⟨ht, s, rest, rfl, hs, hrest⟩ := h
      have hall : ∀ c ∈ s :: rest, c.isWord :=
        List.forall_mem_cons.2 ⟨Sym.isWord_of_isNameStart hs, hrest⟩
      have hlabel : Closed [.char ','] (s :: rest) := .of_class hall (by decide)
      have htype : Closed [.char ','] (.char ':' :: .char ' ' :: type) :=
        .cons (by decide) (.cons (by decide) ht.closed)
      exact (hmark isOptional).append (hlabel.append htype)
  | keywordRest type name => exact .cons hstar (.cons hstar (closed_declaration h.1 h.2))

theorem isTrimmed_render (h : p.WellFormed) : IsTrimmed p.render := by
  have hstar {t : Text} (ht : IsTrimmed t) (middle : Text) :
      IsTrimmed (.char '*' :: (middle ++ t)) := (IsTrimmed.singleton rfl).append ht middle
  cases p with
  | positional isOptional type name =>
      exact isTrimmed_optionalMark (isTrimmed_declaration h.1 h.2) isOptional
  | rest type name => exact hstar (isTrimmed_declaration h.1 h.2) []
  | keyword isOptional name type =>
      exact isTrimmed_optionalMark (isTrimmed_label h.2 h.1.isTrimmed) isOptional
  | keywordRest type name => exact hstar (isTrimmed_declaration h.1 h.2) [.char '*']

/-- Reading a parameter does not change its name and type, or takes them away. -/
theorem named?_asRead (p : Param) : p.asRead.named? = none ∨ p.asRead.named? = p.named? := by
  cases p with
  | positional isOptional type name =>
      rw [asRead, readAs]
      split
      · exact Or.inl rfl
      · exact Or.inr rfl
  | keyword isOptional name type =>
      rw [asRead]
      split
      · exact Or.inl rfl
      · exact Or.inr rfl
  | rest | keywordRest => exact Or.inl rfl

end Param

/-- Reading parameters only takes names away. -/
theorem sublist_filterMap_named? (ps : List Param) :
    List.Sublist ((ps.map Param.asRead).filterMap Param.named?)
      (ps.filterMap Param.named?) := by
  induction ps with
  | nil => exact List.Sublist.refl _
  | cons p ps ih =>
      rw [List.map_cons, ← List.singleton_append, ← List.singleton_append (x := p),
        List.filterMap_append, List.filterMap_append]
      refine List.Sublist.append ?_ ih
      rcases p.named?_asRead with h | h
      · rw [List.filterMap_cons_none h]
        exact List.nil_sublist _
      · simp only [List.filterMap_cons, h, List.filterMap_nil]
        exact List.Sublist.refl _

theorem named?_asRead_of_not_legible {p : Param} (hnamed : p.named?.isSome)
    (h : ¬ p.Legible) : p.asRead.named? = none := by
  cases p with
  | positional isOptional type name =>
      cases name with
      | none => cases hnamed
      | some n =>
          have hunfinished : isUnfinished type := by simpa [Param.Legible] using h
          rw [Param.asRead, readAs, Option.isSome_some, hunfinished]
          rfl
  | keyword isOptional name type =>
      rw [Param.asRead, if_pos (not_not.1 h)]
      rfl
  | rest | keywordRest => cases hnamed

theorem filterMap_named?_asRead {ps : List Param}
    (h : ∀ p ∈ ps, p.named?.isSome → p.Legible) :
    (ps.map Param.asRead).filterMap Param.named? = ps.filterMap Param.named? := by
  rw [List.filterMap_map]
  refine List.filterMap_congr fun p hp => ?_
  cases hnamed : p.named? with
  | none => exact (p.named?_asRead).elim id fun heq => heq.trans hnamed
  | some entry =>
      rw [Function.comp_apply, Param.asRead_of_legible (h p hp (by rw [hnamed]; rfl)), hnamed]

/-- Where no name is lost, all named parameters are legible. -/
theorem legible_of_length_eq {ps : List Param}
    (hlength : ((ps.map Param.asRead).filterMap Param.named?).length =
      (ps.filterMap Param.named?).length) :
    ∀ p ∈ ps, p.named?.isSome → p.Legible := by
  intro p hp hnamed
  by_contra h
  -- The name of `p` is missing on the left, and no other name is there in its place.
  obtain ⟨before, after, rfl⟩ := List.append_of_mem hp
  have hbefore := (sublist_filterMap_named? before).length_le
  have hafter := (sublist_filterMap_named? after).length_le
  obtain ⟨entry, hentry⟩ := Option.isSome_iff_exists.1 hnamed
  simp only [List.map_append, List.map_cons, List.filterMap_append, List.filterMap_cons,
    named?_asRead_of_not_legible hnamed h, hentry, List.length_append, List.length_cons] at hlength
  omega

end RubyDoc.Signature
