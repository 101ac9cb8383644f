import RubyDoc.Proofs.Comment.Marker
import RubyDoc.Block.Tag

/-!
# Reading back what was written

The tags of a comment are found by searching its lines.  Every tag that is written is found again
under the conditions that `Tag.Fits` names: names have the form of names, a parameter's type has no
closing bracket, exceptions can be listed.  More lines never document less (`covers_mono`).
-/

namespace RubyDoc

namespace Text

theorem withoutReturn_concat_of_ne {s : Sym} (h : s ≠ Sym.carriageReturn) (t : Text) :
    withoutReturn (t ++ [s]) = t ++ [s] :=
  withoutReturn_of_ne (by simpa using h)

/-- Only the last symbol of a line can be taken off. -/
theorem withoutReturn_append_cons (t : Text) (s : Sym) (u : Text) :
    withoutReturn (t ++ s :: u) = t ++ withoutReturn (s :: u) := by
  have hlast : (t ++ s :: u).getLast? = (s :: u).getLast? := by
    rw [List.getLast?_append, List.getLast?_cons]
    rfl
  rw [withoutReturn, withoutReturn, hlast]
  split
  · rw [List.dropLast_append_cons]
  · rfl

end Text

namespace Block

open Text Comment Outline

/-! ## Names -/

/-- A name as comments write it: a letter or underscore, more of a word, perhaps one mark. -/
def IsName (t : Text) : Prop :=
  ∃ s word mark, t = s :: word ++ mark ∧ s.isNameStart ∧ (∀ c ∈ word, c.isWord) ∧
    (mark = [] ∨ mark = [Sym.char '?'] ∨ mark = [Sym.char '!'])

/-- Does the text stand for itself in a list between brackets? -/
def IsListable (t : Text) : Prop :=
  ∀ c ∈ t, c ≠ .char ']' ∧ c ≠ .char ',' ∧ c.isBlank = false

/-- Does no name go on with `rest`? -/
def EndsName (rest : Text) : Prop :=
  ∀ c, rest.head? = some c → c.isWord = false ∧ c ≠ .char '?' ∧ c ≠ .char '!'

theorem IsName.trimLeft_append {name : Text} (h : IsName name) (rest : Text) :
    trimLeft (name ++ rest) = name ++ rest := by
  obtain ⟨s, word, mark, rfl, hs, -⟩ := h
  refine trimLeft_of_head fun c hc => ?_
  obtain rfl : s = c := Option.some.inj hc
  exact Sym.isBlank_eq_false_of_isWord (Sym.isWord_of_isNameStart hs)

theorem IsName.last_ne_return {name : Text} (h : IsName name) :
    name.getLast? ≠ some Sym.carriageReturn := by
  obtain ⟨s, word, mark, rfl, hs, hword, hmark⟩ := h
  intro hlast
  have hmem := List.mem_of_getLast? hlast
  simp only [List.cons_append, List.mem_cons, List.mem_append] at hmem
  rcases hmem with rfl | hmem | hmem
  · exact absurd hs (by decide)
  · exact absurd (hword _ hmem) (by decide)
  · rcases hmark with rfl | rfl | rfl <;> exact absurd hmem (by decide)

theorem leadingName?_append {name rest : Text} (h : IsName name) (hrest : EndsName rest) :
    leadingName? (name ++ rest) = some name := by
  obtain ⟨s, word, mark, rfl, hs, hword, hmark⟩ := h
  -- Whatever comes after the word is no part of it.
  have hstop : ∀ c, (mark ++ rest).head? = some c → c.isWord = false := by
    intro c hc
    rcases hmark with rfl | rfl | rfl
    · exact (hrest c hc).1
    · obtain rfl : Sym.char '?' = c := Option.some.inj hc
      decide
    · obtain rfl : Sym.char '!' = c := Option.some.inj hc
      decide
  have htake : (word ++ (mark ++ rest)).takeWhile Sym.isWord = word := by
    rw [List.takeWhile_append_of_pos hword]
    cases hhead : mark ++ rest with
    | nil => rw [List.takeWhile_nil, List.append_nil]
    | cons c more =>
        rw [List.takeWhile_cons, hstop c (by rw [hhead]; rfl), if_neg Bool.false_ne_true,
          List.append_nil]
  have htext : s :: word ++ mark ++ rest = s :: (word ++ (mark ++ rest)) := by
    simp only [List.cons_append, List.append_assoc]
  rw [htext, leadingName?, if_pos hs]
  simp only [htake, List.drop_left]
  rcases hmark with rfl | rfl | rfl
  · cases rest with
    | nil => rfl
    | cons c more =>
        obtain ⟨-, hquestion, hbang⟩ := hrest c rfl
        simp [hquestion, hbang]
  · simp
  · simp

/-! ## Places in a line -/

theorem findSome?_skip {α : Type} {f : Text → Option α} {first : Sym}
    (hf : ∀ s t, s ≠ first → f (s :: t) = none) {before : Text} (hbefore : first ∉ before)
    (rest : Text) : findSome? f (before ++ rest) = findSome? f rest := by
  refine findSome?_append_of_none fun u v huv hv => ?_
  obtain ⟨s, v, rfl⟩ := List.exists_cons_of_ne_nil hv
  refine hf s _ fun hs => hbefore ?_
  rw [huv, hs]
  simp

theorem nameAfter?_cons_of_ne {first : Sym} (tag : Text) {s : Sym} (hs : s ≠ first) (t : Text) :
    nameAfter? (first :: tag) (s :: t) = none := by
  simp only [nameAfter?, after?, if_neg (Ne.symm hs)]
  rfl

/-- A name after a tag and a type in brackets. -/
theorem nameAfter?_bracketed (tag : Text) {type name rest : Text} (htype : Sym.char ']' ∉ type)
    (hname : IsName name) (hrest : EndsName rest) :
    nameAfter? tag (tag ++ (" [" ++ type ++ "] " ++ name ++ rest)) = some name := by
  have hafter : afterBlank? (" [" ++ type ++ "] " ++ name ++ rest : Text) =
      some (Sym.char '[' :: (type ++ (Sym.char ']' :: (" " ++ (name ++ rest))))) := by
    rw [afterBlank?, if_pos (by rfl)]
    simp only [List.append_assoc]
    rfl
  have hbracket : bracketed? (Sym.char '[' :: (type ++ (Sym.char ']' :: (" " ++ (name ++ rest))))) =
      some (type, (" " ++ (name ++ rest) : Text)) := by
    have htake : (type ++ (Sym.char ']' :: (" " ++ (name ++ rest) : Text))).takeWhile
        (· ≠ Sym.char ']') = type := by
      rw [List.takeWhile_append_of_pos fun c hc => by
        simpa using ne_of_mem_of_not_mem hc htype, List.takeWhile_cons_of_neg (by simp),
        List.append_nil]
    rw [bracketed?, htake, List.drop_left]
    exact if_pos rfl
  have hblank : afterBlank? (" " ++ (name ++ rest) : Text) = some (name ++ rest) := by
    rw [afterBlank?, if_pos (by rfl), trimLeft_append, if_pos (by rfl), hname.trimLeft_append]
  simp only [nameAfter?, after?_append, Option.bind_some, hafter, Option.bind_eq_bind, hbracket,
    hblank]
  exact leadingName?_append hname hrest

section Lines

variable {indent : Text} (hindent : ∀ c ∈ indent, isIndentSym c)
include hindent

theorem at_notMem_indented : Sym.char '@' ∉ indent ++ "# " := by
  rw [List.mem_append, not_or]
  refine ⟨fun hmem => ?_, by decide⟩
  exact absurd (hindent _ hmem) (by decide)

theorem nameIn?_indented (tag : Text) {type name rest : Text} (htype : Sym.char ']' ∉ type)
    (hname : IsName name) (hrest : EndsName rest) :
    nameIn? (.char '@' :: tag)
      (indent ++ ("# " ++ (.char '@' :: tag ++ (" [" ++ type ++ "] " ++ name ++ rest)))) =
        some name := by
  rw [nameIn?, ← List.append_assoc, findSome?_skip (fun s t hs => nameAfter?_cons_of_ne tag hs t)
    (at_notMem_indented hindent)]
  exact findSome?_of_eq_some (nameAfter?_bracketed _ htype hname hrest)

/-- The name of a parameter is found in the line of its tag. -/
theorem nameIn?_paramLine {name type : Text} (htype : Sym.char ']' ∉ type) (hname : IsName name) :
    nameIn? "@param" (indent ++ (Tag.param name type).line) = some name := by
  have hline : (Tag.param name type).line = "# " ++ (.char '@' :: ("param" : Text) ++
      (" [" ++ type ++ "] " ++ name ++ " Param documentation.")) := by
    simp only [Tag.line, List.append_assoc]
    rfl
  have hends : EndsName " Param documentation." := by
    intro c hc
    obtain rfl : Sym.char ' ' = c := Option.some.inj hc
    decide
  rw [hline]
  exact nameIn?_indented hindent _ htype hname hends

/-- The name of an attribute is found in the first line of its block. -/
theorem nameIn?_attributeLine {name : Text} (access : Access) (hname : IsName name) :
    nameIn? "@!attribute" (indent ++ ("# @!attribute [" ++ access.letters ++ "] " ++ name)) =
      some name := by
  have hline : ("# @!attribute [" ++ access.letters ++ "] " ++ name : Text) =
      ("# " : Text) ++ (.char '@' :: ("!attribute" : Text) ++
        (" [" ++ access.letters ++ "] " ++ name ++ ([] : Text))) := by
    simp only [List.append_assoc, List.append_nil]
    rfl
  have hends : EndsName [] := by
    intro c hc
    cases hc
  have hletters : Sym.char ']' ∉ access.letters := by
    cases access <;> decide
  rw [hline]
  exact nameIn?_indented hindent _ hletters hname hends

/-- The exception is found in the line of its tag. -/
theorem raisedIn_raisedLine {error : Text} (hne : error ≠ []) (hall : IsListable error) :
    raisedIn (indent ++ (Tag.raised error).line) = [error] := by
  have hline : (Tag.raised error).line = "# " ++ ("@raise" ++ (" [" ++ (error ++ "]"))) := by
    simp only [Tag.line, List.append_assoc]
    rfl
  have hbracket : bracketed? ("[" ++ (error ++ "]") : Text) = some (error, []) := by
    have htake : (error ++ "]" : Text).takeWhile (· ≠ Sym.char ']') = error := by
      rw [List.takeWhile_append_of_pos fun c hc => by simpa using (hall c hc).1]
      exact List.append_nil _
    show bracketed? (Sym.char '[' :: (error ++ "]" : Text)) = _
    rw [bracketed?, htake, List.drop_left]
    exact if_pos rfl
  have hraised : raisedAfter? ("@raise" ++ (" [" ++ (error ++ "]")) : Text) = some error := by
    have hafter : afterBlank? (" [" ++ (error ++ "]") : Text) = some ("[" ++ (error ++ "]")) := by
      rw [afterBlank?, if_pos (by rfl)]
      rfl
    simp only [raisedAfter?, after?_append, Option.bind_some, hafter, Option.bind_eq_bind, hbracket]
  -- The tag can only be found at the at sign, and there is none before it.
  have hskip : ∀ s t, s ≠ Sym.char '@' → raisedAfter? (s :: t) = none := by
    intro s t hs
    have hnone : after? "@raise" (s :: t) = none := if_neg (Ne.symm hs)
    simp only [raisedAfter?, hnone, Option.bind_none, Option.bind_eq_bind]
  have hfound : findSome? raisedAfter? (indent ++ (Tag.raised error).line) = some error := by
    rw [hline, ← List.append_assoc, findSome?_skip hskip (at_notMem_indented hindent)]
    exact findSome?_of_eq_some hraised
  have hcomma : Sym.char ',' ∉ error := fun hmem => (hall _ hmem).2.1 rfl
  rw [raisedIn, hfound, Option.getD_some, splitOn_of_notMem hcomma, List.map_singleton,
    trim_of_not_blank fun s hs => (hall s hs).2.2]
  simp [hne]

end Lines

/-- A whole-word tag in a line is held by it. -/
theorem holdsTag_of_eq {tags : List Text} {tag before rest : Text} (htag : tag ∈ tags)
    (hends : endsWord rest) : holdsTag tags (before ++ (tag ++ rest)) := by
  refine findSome?_isSome_iff.2 ⟨before, tag ++ rest, rfl, ?_⟩
  have hstarts : startsWithWord tags (tag ++ rest) := by
    rw [startsWithWord, List.any_eq_true]
    exact ⟨tag, htag, by rw [after?_append]; exact hends⟩
  rw [if_pos hstarts]
  rfl

/-! ## Tags in a comment -/

/-- Can the tag be read back from its line? -/
def Tag.Fits : Tag → Prop
  | visibility v => v ≠ .pub
  | param name type => IsName name ∧ Sym.char ']' ∉ type
  | raised error => error ≠ [] ∧ IsListable error
  | moduleFunction _ _ | returned _ | returnedIf _ _ => True

/-- Only the line of a conditional result may lose a symbol at its end. -/
theorem withoutReturn_tagLine {t : Tag} (ht : ∀ type errors, t ≠ .returnedIf type errors)
    (indent : Text) : (indent ++ t.line).withoutReturn = indent ++ t.line := by
  have hlast : ∃ front c, indent ++ t.line = front ++ [c] ∧ c ≠ Sym.carriageReturn := by
    cases t with
    | visibility v =>
        cases v with
        | pub => exact ⟨indent ++ "# @publi", .char 'c', by rw [List.append_assoc]; rfl, by decide⟩
        | prot =>
            exact ⟨indent ++ "# @protecte", .char 'd', by rw [List.append_assoc]; rfl, by decide⟩
        | priv =>
            exact ⟨indent ++ "# @privat", .char 'e', by rw [List.append_assoc]; rfl, by decide⟩
    | moduleFunction name copy =>
        refine ⟨indent ++ ("# " ++ moduleFunctionNote ++ " when included, also defines #" ++ name ++
          " (instance visibility: " ++ copy.name), .char ')', ?_, by decide⟩
        rw [List.append_assoc]
        rfl
    | param name type =>
        refine ⟨indent ++ ("# @param [" ++ type ++ "] " ++ name ++ " Param documentation"),
          .char '.', ?_, by decide⟩
        simp only [Tag.line, List.append_assoc]
        rfl
    | raised error =>
        refine ⟨indent ++ ("# @raise [" ++ error), .char ']', ?_, by decide⟩
        simp only [Tag.line, List.append_assoc]
        rfl
    | returned type =>
        refine ⟨indent ++ ("# @return [" ++ type), .char ']', ?_, by decide⟩
        simp only [Tag.line, List.append_assoc]
        rfl
    | returnedIf type errors => exact absurd rfl (ht type errors)
  obtain ⟨front, c, hline, hc⟩ := hlast
  rw [hline, withoutReturn_concat_of_ne hc]

theorem hasReturn_of_mem {texts : List Text} {before rest : Text}
    (hmem : before ++ (("@return" : Text) ++ Sym.char ' ' :: rest) ∈ texts) :
    (Existing.ofLines texts).hasReturn := by
  refine List.any_eq_true.2 ⟨_, hmem, ?_⟩
  exact holdsTag_of_eq List.mem_cons_self rfl

theorem hasVisibility_of_mem {texts : List Text} {v : Visibility} (hv : v ≠ .pub) {indent : Text}
    (hmem : indent ++ (Tag.visibility v).line ∈ texts) :
    (Existing.ofLines texts).covers (.visibility v) := by
  refine List.any_eq_true.2 ⟨_, hmem, ?_⟩
  cases v with
  | pub => exact absurd rfl hv
  | prot =>
      have heq : indent ++ (Tag.visibility .prot).line =
          (indent ++ ("# " : Text)) ++ (("@protected" : Text) ++ ([] : Text)) := by
        rw [List.append_assoc]
        rfl
      rw [heq]
      exact holdsTag_of_eq (List.mem_cons_of_mem _ List.mem_cons_self) rfl
  | priv =>
      have heq : indent ++ (Tag.visibility .priv).line =
          (indent ++ ("# " : Text)) ++ (("@private" : Text) ++ ([] : Text)) := by
        rw [List.append_assoc]
        rfl
      rw [heq]
      exact holdsTag_of_eq List.mem_cons_self rfl

/-- The errors of a conditional result may end in a carriage return, but the tag name stays. -/
theorem said_returnedIf {type : Text} {errors : List Text} {indent said : Text}
    (hsaid : said = indent ++ (Tag.returnedIf type errors).line ∨
      said = (indent ++ (Tag.returnedIf type errors).line).withoutReturn) :
    ∃ rest, said = (indent ++ ("# " : Text)) ++ (("@return" : Text) ++ Sym.char ' ' :: rest) := by
  have heq : indent ++ (Tag.returnedIf type errors).line = (indent ++ ("# @return " : Text)) ++
      Sym.char '[' :: (type ++ ("] if " ++ join ", " errors : Text)) := by
    simp only [Tag.line, List.append_assoc]
    rfl
  rcases hsaid with rfl | rfl
  · refine ⟨Sym.char '[' :: (type ++ ("] if " ++ join ", " errors : Text)), ?_⟩
    rw [heq]
    simp only [List.append_assoc]
    rfl
  · refine ⟨withoutReturn (Sym.char '[' :: (type ++ ("] if " ++ join ", " errors : Text))), ?_⟩
    rw [heq, withoutReturn_append_cons]
    simp only [List.append_assoc]
    rfl

/-- **A tag is found again**, with or without a carriage return at the end of its line. -/
theorem covers_of_mem {texts : List Text} {t : Tag} (ht : t.Fits) {indent said : Text}
    (hindent : ∀ c ∈ indent, isIndentSym c)
    (hsaid : said = indent ++ t.line ∨ said = (indent ++ t.line).withoutReturn)
    (hmem : said ∈ texts) : (Existing.ofLines texts).covers t := by
  -- All lines but those of conditional results are there unchanged.
  have hwhole : (∀ type errors, t ≠ .returnedIf type errors) → indent ++ t.line ∈ texts := by
    intro hother
    rw [withoutReturn_tagLine hother, or_self] at hsaid
    rwa [← hsaid]
  cases t with
  | visibility v =>
      have hline := hwhole (by intro _ _ h; cases h)
      exact hasVisibility_of_mem ht hline
  | moduleFunction name copy =>
      have hline := hwhole (by intro _ _ h; cases h)
      refine List.any_eq_true.2 ⟨_, hline, contains_iff.2 ⟨indent ++ "# ", ?_⟩⟩
      refine ⟨" when included, also defines #" ++ name ++ " (instance visibility: " ++ copy.name ++
        ")", ?_⟩
      simp only [Tag.line, List.append_assoc]
  | param name type =>
      have hline := hwhole (by intro _ _ h; cases h)
      show (Existing.ofLines texts).params.contains name = true
      rw [List.contains_iff_mem]
      exact List.mem_filterMap.2 ⟨_, hline, nameIn?_paramLine hindent ht.2 ht.1⟩
  | raised error =>
      have hline := hwhole (by intro _ _ h; cases h)
      show (Existing.ofLines texts).raised.contains error = true
      rw [List.contains_iff_mem]
      refine List.mem_flatMap.2 ⟨_, hline, ?_⟩
      rw [raisedIn_raisedLine hindent ht.1 ht.2]
      exact List.mem_singleton_self error
  | returned type =>
      have hline := hwhole (by intro _ _ h; cases h)
      have heq : indent ++ (Tag.returned type).line =
          (indent ++ ("# " : Text)) ++
            (("@return" : Text) ++ Sym.char ' ' :: ("[" ++ type ++ "]" : Text)) := by
        simp only [Tag.line, List.append_assoc]
        rfl
      rw [heq] at hline
      exact hasReturn_of_mem hline
  | returnedIf type errors =>
      obtain ⟨rest, rfl⟩ := said_returnedIf hsaid
      exact hasReturn_of_mem hmem

/-! ## More lines -/

/-- More lines document no less. -/
theorem covers_mono {texts more : List Text} (h : ∀ line ∈ texts, line ∈ more) {t : Tag}
    (ht : (Existing.ofLines texts).covers t) : (Existing.ofLines more).covers t := by
  have hany : ∀ p : Text → Bool, texts.any p → more.any p := by
    intro p hp
    obtain ⟨line, hline, hp⟩ := List.any_eq_true.1 hp
    exact List.any_eq_true.2 ⟨line, h line hline, hp⟩
  cases t with
  | visibility v => exact hany _ ht
  | moduleFunction name copy => exact hany _ ht
  | param name type =>
      rw [Existing.covers, List.contains_iff_mem] at ht ⊢
      obtain ⟨line, hline, hname⟩ := List.mem_filterMap.1 ht
      exact List.mem_filterMap.2 ⟨line, h line hline, hname⟩
  | raised error =>
      rw [Existing.covers, List.contains_iff_mem] at ht ⊢
      obtain ⟨line, hline, hlisted⟩ := List.mem_flatMap.1 ht
      exact List.mem_flatMap.2 ⟨line, h line hline, hlisted⟩
  | returned type => exact hany _ ht
  | returnedIf type errors => exact hany _ ht

theorem attributes_mono {texts more : List Text} (h : ∀ line ∈ texts, line ∈ more) {name : Text}
    (hname : name ∈ (Existing.ofLines texts).attributes) :
    name ∈ (Existing.ofLines more).attributes := by
  obtain ⟨line, hline, hfound⟩ := List.mem_filterMap.1 hname
  exact List.mem_filterMap.2 ⟨line, h line hline, hfound⟩

end Block

end RubyDoc
