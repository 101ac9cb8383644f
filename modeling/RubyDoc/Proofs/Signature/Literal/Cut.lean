import RubyDoc.Proofs.Signature.Literal.Shown

/-!
# Method types that are cut within a literal

The parameters end at the first bracket that closes the one before them, and a parameter is
documented under a name that stands in there (`length_le_of_mem_paramTypes`).  Behind an arrow the
text ends at the first bar that opens an overload.  Neither looks at quotes: what they cut a
literal at is what no opaque content has (`isOpaque_iff`).  A literal that is cut is documented as
a string.
-/

namespace RubyDoc.Signature

open Text

/-! ## Parameters that end too early -/

theorem overloadFrom_parenthesis (rest : Text) :
    overloadFrom 0 false (.char '(' :: rest) = .char '(' :: overloadFrom 1 false rest := by
  rw [overloadFrom, if_neg (by simp)]
  simp [bracketStep, isOpening]

theorem afterTypeParameters_parenthesis (rest : Text) :
    afterTypeParameters (.char '(' :: rest) = .char '(' :: rest := by
  show ((enclosed? [.char '['] _).map Prod.snd).getD _ = _
  rw [enclosed?_eq_none (by simp)]
  rfl

/-- A method type whose first bracket stays open has no parameters. -/
theorem parameterList_of_open {rest : Text} (h : closingFrom? 1 rest = none) :
    (parameterList (afterTypeParameters (firstOverload (.char '(' :: rest)))).1 = [] := by
  -- The bracket stays open, so that nothing is cut off and nothing is enclosed.
  have hdepth (before : Text) (hbefore : before <+: rest) : 1 + bracketDepth before ≠ 0 := by
    have hnested := isNested_iff.2 h before hbefore
    omega
  have hall := overloadFrom_append false (u := []) (fun h => by cases h) fun _ => hdepth
  rw [List.append_nil, overloadFrom, List.append_nil] at hall
  have hopen : closingFrom? 1 (trimRight rest) = none := by
    obtain ⟨w, -, hrest⟩ := exists_eq_trimRight_append rest
    cases hsome : closingFrom? 1 (trimRight rest) with
    | none => rfl
    | some k =>
        rw [hrest, closingFrom?_append_of_some hsome] at h
        cases h
  have htrim : trim (.char '(' :: rest) = .char '(' :: trimRight rest :=
    IsTrimmed.trim_append (.singleton rfl) rest
  have hnone : closing? (.char '(' :: trimRight rest) = none := by
    rw [closing?_cons rfl, hopen]
    rfl
  rw [firstOverload, overloadFrom_parenthesis, hall, htrim, afterTypeParameters_parenthesis,
    parameterList]
  show ((enclosed? [.char '('] _).getD _).1 = _
  rw [enclosed?_of_open hnone]
  rfl

/-- The parameters go up to the first bracket that closes the one before them. -/
theorem parameterList_of_closing {rest : Text} {k : Nat} (h : closingFrom? 1 rest = some k) :
    (parameterList (afterTypeParameters (firstOverload (.char '(' :: rest)))).1 =
      rest.take k := by
  obtain ⟨before, c, behind, rfl, rfl, hc, hdepth, hopen⟩ :=
    exists_of_closingFrom? h (Int.le_refl 1)
  have hall := overloadFrom_append false (c := before) (u := c :: behind) (d := 1)
    (fun h => by cases h) fun _ above habove => by
      have hone := hopen above habove
      omega
  rw [hdepth] at hall
  have hcut : ∃ more, overloadFrom 1 false (c :: behind) = c :: more := by
    rw [overloadFrom, if_neg (by simp)]
    exact ⟨_, rfl⟩
  obtain ⟨more, hmore⟩ := hcut
  have htrimmed : IsTrimmed (.char '(' :: (before ++ [c])) :=
    .between rfl (isBlank_of_mem_delimiters (mem_delimiters_of_closing hc)) before
  have htrim := htrimmed.trim_append more
  simp only [List.cons_append, List.append_assoc, List.nil_append] at htrim
  have hclosed : closing? (.char '(' :: (before ++ c :: trimRight more)) =
      some (before.length + 1) := by
    rw [closing?_cons rfl, closingFrom?_nested hopen, hdepth, closingFrom?, if_pos ⟨hc, rfl⟩]
    simp
  rw [firstOverload, overloadFrom_parenthesis, hall, hmore, htrim, afterTypeParameters_parenthesis,
    parameterList]
  show ((enclosed? [.char '('] _).getD _).1 = _
  rw [enclosed?_cons hclosed]
  simp

/-! ## Names of parameters -/

theorem mem_setType {name type : Text} {types : List (Text × Text)} {entry : Text × Text}
    (h : entry ∈ setType name type types) : entry.1 = name ∨ entry ∈ types := by
  induction types with
  | nil =>
      obtain rfl := List.mem_singleton.1 h
      exact .inl rfl
  | cons first types ih =>
      obtain ⟨n, t⟩ := first
      rw [setType] at h
      split at h
      · rcases List.mem_cons.1 h with rfl | h
        · exact .inl ‹_›
        · exact .inr (List.mem_cons_of_mem _ h)
      · rcases List.mem_cons.1 h with rfl | h
        · exact .inr (List.mem_cons_self ..)
        · exact (ih h).imp_right (List.mem_cons_of_mem _)

theorem length_withoutMark (t : Text) : ((after? "?" t).getD t).length ≤ t.length := by
  cases h : after? "?" t with
  | none => exact Nat.le_refl _
  | some rest =>
      rw [after?_eq_some_iff] at h
      rw [h, Option.getD_some, List.length_append]
      omega

theorem length_le_of_keyword? {t name type : Text} (h : keyword? t = some (name, type)) :
    name.length ≤ t.length := by
  have hmark := length_withoutMark t
  rw [keyword?] at h
  generalize (after? "?" t).getD t = t' at h hmark
  dsimp only at h
  have hword := (List.takeWhile_sublist (l := t') Sym.isWord).length_le
  split at h
  · rename_i s word _ _ heq _
    split at h
    · obtain ⟨rfl, -⟩ := Prod.mk.inj (Option.some.inj h)
      rw [heq] at hword
      omega
    · cases h
  · cases h

theorem Positional.length_le_of_name {t name : Text} (h : (ofText t).name = some name) :
    name.length ≤ t.length := by
  have htrim : ofText t = ofText t.trim := by simp [ofText]
  have hlength := length_trim_le t
  have hword := (List.rtakeWhile_suffix isInWord t.trim).length_le
  rw [htrim, ofText_eq (trim_trim t)] at h
  dsimp only at h
  split at h
  · obtain rfl := Option.some.inj h
    omega
  · cases h

/-- The names that are documented stand in the parameters. -/
theorem length_le_of_mem_addParameter (f : Text → Text) {sig : Signature} {t : Text} {n : Nat}
    (hsig : ∀ entry ∈ sig.paramTypes, entry.1.length ≤ n) (ht : t.length ≤ n) :
    ∀ entry ∈ (addParameter f sig t).paramTypes, entry.1.length ≤ n := by
  have hset {name type : Text} (hname : name.length ≤ t.length) :
      ∀ entry ∈ setType name type sig.paramTypes, entry.1.length ≤ n := fun entry hentry => by
    rcases mem_setType hentry with hentry | hentry
    · rw [hentry]
      omega
    · exact hsig entry hentry
  rw [addParameter]
  split
  · exact hsig
  split
  · exact hsig
  split
  · exact hsig
  split
  · exact hset (length_le_of_keyword? ‹_›)
  dsimp only
  split
  · rename_i hname
    exact hset (Nat.le_trans (Positional.length_le_of_name hname) (length_withoutMark t))
  · exact hsig

theorem length_le_of_mem_foldl (f : Text → Text) {ts : List Text} {n : Nat}
    (hts : ∀ t ∈ ts, t.length ≤ n) {sig : Signature}
    (hsig : ∀ entry ∈ sig.paramTypes, entry.1.length ≤ n) :
    ∀ entry ∈ (ts.foldl (addParameter f) sig).paramTypes, entry.1.length ≤ n := by
  induction ts generalizing sig with
  | nil => exact hsig
  | cons t ts ih =>
      obtain ⟨ht, hts⟩ := List.forall_mem_cons.1 hts
      exact ih hts (length_le_of_mem_addParameter f hsig ht)

theorem length_le_of_mem_paramTypes {collapse : Bool} {t : Text} {entry : Text × Text}
    (h : entry ∈ (ofMethodType collapse t).paramTypes) :
    entry.1.length ≤
      (parameterList (afterTypeParameters (firstOverload t))).1.length := by
  rw [ofMethodType] at h
  refine length_le_of_mem_foldl (docType collapse) (fun part hpart => ?_)
    (List.forall_mem_nil _) entry h
  obtain ⟨p, hp, rfl⟩ := List.mem_map.1 hpart
  exact Nat.le_trans (length_trim_le p) (length_le_of_mem_pieces hp)

/-! ## Method types cut off within a literal -/

/-- Behind an arrow, a bar that opens an overload cuts, unless one in front of it does. -/
theorem exists_overloadFrom_bar {d : Int} {before behind : Text}
    (hdepth : d + bracketDepth before = 0) (hopens : opensOverload behind) :
    ∃ above, above <+: before ∧ overloadFrom d true (before ++ .char '|' :: behind) = above := by
  induction before generalizing d with
  | nil =>
      obtain rfl : d = 0 := by simpa using hdepth
      exact ⟨[], List.nil_prefix, overloadFrom_bar hopens⟩
  | cons s before ih =>
      rw [bracketDepth_cons, ← Int.add_assoc] at hdepth
      obtain ⟨above, habove, hcut⟩ := ih hdepth
      rw [List.cons_append, overloadFrom]
      split
      · exact ⟨[], List.nil_prefix, rfl⟩
      · simp only [Bool.true_or]
        exact ⟨s :: above, List.cons_prefix_cons.2 ⟨rfl, habove⟩, by rw [hcut]⟩

/-- A content is opaque if it closes no bracket before it, leaves none open, and is passed over
behind an arrow. -/
theorem isOpaque_iff {c : Text} :
    IsOpaque c ↔ IsNested c ∧ bracketDepth c = 0 ∧ overloadFrom 0 true c = c := by
  constructor
  · intro h
    have hpasses := overloadFrom_append true (u := []) (d := 0)
      (fun _ before behind hc hdepth => by
        rw [List.append_nil]
        exact h.bars before behind hc (by omega)) (fun harrow => by cases harrow)
    simp only [List.append_nil, overloadFrom] at hpasses
    exact ⟨h.nested, h.balanced, hpasses⟩
  · rintro ⟨hnested, hbalanced, hpasses⟩
    refine ⟨hnested, hbalanced, fun before behind hc hdepth => Bool.eq_false_iff.2 fun hopens => ?_⟩
    have hzero : 0 + bracketDepth before = 0 := by rw [hdepth, Int.add_zero]
    obtain ⟨above, habove, hcut⟩ := exists_overloadFrom_bar hzero hopens
    -- What is left is shorter than the text.
    have hlength := habove.length_le
    rw [← hc, hpasses] at hcut
    rw [← hcut, hc, List.length_append, List.length_cons] at hlength
    omega

instance : DecidablePred IsOpaque := fun _ => decidable_of_iff' _ isOpaque_iff

/-- The result of a method type without parameters. -/
theorem returnType_of_firstOverload {collapse : Bool} {t result : Text} (hresult : IsTrimmed result)
    (h : firstOverload t = Text.ofString "() " ++ MethodType.renderResult result) :
    (ofMethodType collapse t).returnType = docType collapse result := by
  have htrimmed := MethodType.isTrimmed_renderResult hresult
  have hparams : parameterList (afterTypeParameters (firstOverload t)) =
      ([], MethodType.renderResult result) := by
    have henclosed := enclosed?_between (o := '(') (c := ')') rfl rfl .nil
      ([.char ' '] ++ MethodType.renderResult result)
    rw [trim_append_left (by decide), htrimmed.trim_eq] at henclosed
    rw [h]
    exact congrArg (Option.getD · _) henclosed
  have hnone : ∀ b ∈ (none : Option (Bool × Text)), Closed [] b.2 := by simp
  have hblock : afterBlock (MethodType.renderResult result) = MethodType.renderResult result :=
    afterBlock_append hnone htrimmed fun s hs => by
      rw [← Option.some.inj hs]
      decide
  rw [ofMethodType, hparams]
  dsimp only
  rw [hblock, resultType_renderResult hresult]
  rfl

section Unclosed

variable {q : Sym} {c : Text}

/-- A quote that is not closed keeps all that follows in one piece. -/
theorem pieces_unclosed {sep : Sym} (hq : isQuote q) (hc : q ∉ c) :
    pieces sep (q :: c) = [q :: c] := by
  have hquoted : piecesFrom sep ⟨0, some q⟩ c = [c] := by
    induction c with
    | nil => rfl
    | cons s c ih =>
        rw [List.mem_cons, not_or] at hc
        refine piecesFrom_cons_of_not_cutsAt (by simp [cutsAt, Level.isTop]) ?_
        simpa [Level.step, Ne.symm hc.1] using ih hc.2
  refine piecesFrom_cons_of_not_cutsAt (by simp [cutsAt, Level.step_quote hq]) ?_
  rwa [Level.step_quote hq]

theorem shape_unclosed (hq : isQuote q) (hc : q ∉ c) :
    shape (q :: c) = .optional (q :: c).dropLast ∨ shape (q :: c) = .fixed "String" := by
  have hshape : shape (q :: c) =
      if Text.endsWith (q :: c) "?" && decide (1 < (q :: c).length) then .optional (q :: c).dropLast
      else .fixed "String" := by
    rw [shape, pieces_unclosed hq hc, pieces_unclosed hq hc]
    simp only [isQuote, Bool.or_eq_true, decide_eq_true_eq] at hq
    rcases hq with rfl | rfl <;> rfl
  rw [hshape]
  split
  · exact .inl rfl
  · exact .inr rfl

/-- A literal that is not closed is documented as a string, perhaps an optional one. -/
theorem docType_unclosed (collapse : Bool) (hq : isQuote q) (hc : q ∉ c) :
    docType collapse (q :: c) = "String" ∨
      ∃ inner, docType collapse (q :: c) = inner ++ Text.ofString "?" := by
  have hblank := isBlank_of_mem_delimiters (mem_delimiters_of_quote hq)
  have htrim : trim (q :: c) = q :: trimRight c := IsTrimmed.trim_append (.singleton hblank) c
  rw [docType_eq, htrim]
  rcases shape_unclosed hq (notMem_trimRight hc) with hshape | hshape <;> rw [hshape]
  · exact .inr ⟨_, rfl⟩
  · exact .inl rfl

end Unclosed

end RubyDoc.Signature
