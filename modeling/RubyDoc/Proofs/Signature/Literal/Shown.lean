import RubyDoc.Proofs.Signature.Literal.MethodType

/-!
# Declared types show no literal

A type that is spelled from a tree is documented without quotes, since a literal in it is a string.
The text of a well-formed method type closes no bracket that it did not open.  So the signature of a
method type with such types is that of every text it is requoted to
(`MethodType.ofMethodType_of_requoted`).
-/

namespace RubyDoc.Signature

open Text

/-! ## Types -/

theorem isUnquoted_of_isPathSym {t : Text} (h : ∀ s ∈ t, isPathSym s) : IsUnquoted t :=
  fun s hs => Bool.eq_false_iff.2 fun hquote => by
    have hpath := h s hs
    rw [isPathSym_of_quote hquote] at hpath
    cases hpath

theorem IsUnquoted.join {sep : Text} (hsep : IsUnquoted sep) {ts : List Text}
    (h : ∀ t ∈ ts, IsUnquoted t) : IsUnquoted (Text.join sep ts) := by
  induction ts with
  | nil => exact List.forall_mem_nil _
  | cons t ts ih =>
      obtain ⟨ht, hts⟩ := List.forall_mem_cons.1 h
      cases ts with
      | nil => exact ht
      | cons u rest =>
          rw [Text.join, append_iff, append_iff]
          exact ⟨⟨ht, hsep⟩, ih hts⟩

/-- The documentation of a type shows no literal. -/
theorem TypeExpr.isUnquoted_translate (collapse : Bool) {t : TypeExpr} (h : t.Valid) :
    IsUnquoted (t.translate collapse) := by
  induction h with
  | @name anchored path h =>
      have hpath := isUnquoted_of_isPathSym h.all
      rw [translate]
      split
      · exact hpath
      · cases hkeyword : keywordTypes.lookup path with
        | some word => exact (isUnquoted_of_lookup_keywordTypes hkeyword).2
        | none => exact hpath
  | @generic anchored path arguments h _ _ ih =>
      have hpath := isUnquoted_of_isPathSym h.all
      have hunquoted : ∀ sep ∈ [Text.ofString "<", ", ", ">"], IsUnquoted sep := by decide
      rw [translate, translateAll_eq_map]
      split
      · exact hpath
      · simp only [IsUnquoted.append_iff]
        exact ⟨⟨⟨hpath, hunquoted _ (by decide)⟩,
          .join (hunquoted _ (by decide)) (List.forall_mem_map.2 ih)⟩, hunquoted _ (by decide)⟩
  | group _ ih => exact ih
  | optional _ _ _ _ ih =>
      rw [translate, IsUnquoted.append_iff]
      exact ⟨ih, by decide⟩
  | @union first rest _ _ _ _ ih =>
      rw [translate, translateAll_eq_map]
      refine .join (by decide) fun t ht => ?_
      exact List.forall_mem_map.2 ih t (List.mem_eraseDups.1 ht)
  | integer | symbol | string | singleton | tuple | record | proc | intersection =>
      simp only [translate]
      decide

/-! ## Brackets -/

theorem IsNested.closingFrom?_eq {t : Text} (h : IsNested t) : closingFrom? 1 t = none := by
  have hopen (before : Text) (hbefore : before <+: t) : 1 ≤ 1 + bracketDepth before := by
    have hzero := h before hbefore
    omega
  rw [← List.append_nil t, closingFrom?_nested hopen]
  rfl

/-- A text is nested if it would not close a bracket before it. -/
theorem isNested_iff {t : Text} : IsNested t ↔ closingFrom? 1 t = none := by
  refine ⟨IsNested.closingFrom?_eq, ?_⟩
  rintro h before ⟨behind, rfl⟩
  have hnone : closingFrom? 1 before = none := by
    cases hbefore : closingFrom? 1 before with
    | none => rfl
    | some k =>
        rw [closingFrom?_append_of_some hbefore] at h
        cases h
  have hdepth := one_le_of_closingFrom?_eq_none hnone (Int.le_refl 1)
  omega

instance : DecidablePred IsNested := fun _ => decidable_of_iff' _ isNested_iff

theorem Closed.isNested {cuts : List Sym} {t : Text} (h : Closed cuts t) : IsNested t := by
  have hpasses := closingFrom?_append h (Int.le_refl 1) []
  rw [List.append_nil] at hpasses
  exact isNested_iff.2 hpasses

/-! ## Method types -/

/-- The type of a parameter. -/
def Param.type : Param → Text
  | positional _ type _ => type
  | rest type _ => type
  | keyword _ _ type => type
  | keywordRest type _ => type

/-- A type as it is spelled from a tree. -/
def IsSpelled (t : Text) : Prop :=
  ∃ e : TypeExpr, e.Valid ∧ e.render = t

theorem IsSpelled.isUnquoted_docType (collapse : Bool) {t : Text} (h : IsSpelled t) :
    IsUnquoted (docType collapse t) := by
  obtain ⟨e, he, rfl⟩ := h
  rw [TypeExpr.docType_render collapse he]
  exact TypeExpr.isUnquoted_translate collapse he

namespace MethodType

variable {m : MethodType}

/-- The result and the types of the parameters are spelled from trees. -/
structure Spelled (m : MethodType) : Prop where
  result : IsSpelled m.result
  parameters : ∀ p ∈ m.parameters, IsSpelled p.type

theorem closed_render (h : m.WellFormed) : Closed [] m.render := by
  have hspace : Closed [.char '|'] [.char ' '] := .of_isBlank (by decide) (by decide)
  have harrow : Closed [.char '|'] (Text.ofString "-> ") := .of_notMem (by decide)
  have hall : Closed [.char '|'] (renderTypeParameters m.typeParameters ++
      (between '(' ')' (renderParameters m.parameters) ++ ([.char ' '] ++
        (renderBlock m.block ++ (Text.ofString "-> " ++ m.result))))) :=
    (closed_renderTypeParameters h.typeParameters).append
      ((Closed.between rfl rfl (closed_renderParameters h.parameters)).append
        (hspace.append ((closed_renderBlock h.block).append (harrow.append h.bars))))
  exact hall.mono (List.nil_subset _)

theorem type_of_named? {p : Param} {entry : Text × Text} (h : p.named? = some entry) :
    entry.2 = p.type := by
  cases p with
  | positional _ _ name =>
      cases name with
      | none => cases h
      | some name => exact (congrArg Prod.snd (Option.some.inj h)).symm
  | keyword => exact (congrArg Prod.snd (Option.some.inj h)).symm
  | rest | keywordRest => cases h

theorem type_of_element? {p : Param} {type : Text} (h : p.element? = some type) :
    type = p.type := by
  cases p with
  | rest => exact (Option.some.inj h).symm
  | positional | keyword | keywordRest => cases h

theorem type_of_value? {p : Param} {type : Text} (h : p.value? = some type) : type = p.type := by
  cases p with
  | keywordRest => exact (Option.some.inj h).symm
  | positional | keyword | rest => cases h

/-- The signature of a method type shows no literal. -/
theorem showsNoQuote_signature (collapse : Bool) (h : m.Spelled) :
    ShowsNoQuote (m.signature collapse) := by
  have hlast {read : Param → Option Text} (hread : ∀ p type, read p = some type → type = p.type) :
      ∀ t ∈ (m.parameters.filterMap read).getLast?.map (docType collapse), IsUnquoted t := by
    intro t ht
    obtain ⟨type, htype, rfl⟩ := Option.map_eq_some_iff.1 ht
    obtain ⟨p, hp, hsome⟩ := List.mem_filterMap.1 (List.mem_of_getLast? htype)
    rw [hread p type hsome]
    exact (h.parameters p hp).isUnquoted_docType collapse
  refine ⟨h.result.isUnquoted_docType collapse, ?_, hlast fun _ _ => type_of_element?,
    hlast fun _ _ => type_of_value?⟩
  simp only [signature, List.forall_mem_map, List.mem_filterMap]
  rintro entry ⟨p, hp, hentry⟩
  rw [type_of_named? hentry]
  exact (h.parameters p hp).isUnquoted_docType collapse

/-- A method type without further overloads. -/
theorem ofMethodType_render_single (collapse : Bool) (h : m.WellFormed)
    (hlegible : ∀ p ∈ m.parameters, p.Legible) :
    ofMethodType collapse m.render = m.signature collapse := by
  have hread := ofMethodType_render collapse h hlegible
    (List.forall_mem_nil (opensOverload · = true))
  rwa [Text.join] at hread

/-- A well-formed method type has the signature of every text that it is requoted to. -/
theorem ofMethodType_of_requoted (collapse : Bool) (h : m.WellFormed)
    (hlegible : ∀ p ∈ m.parameters, p.Legible) (hspelled : m.Spelled) {u : Text}
    (hu : Requoted m.render u) : ofMethodType collapse u = m.signature collapse := by
  have hread := ofMethodType_render collapse h hlegible
    (List.forall_mem_nil (opensOverload · = true))
  rw [Text.join] at hread
  have hagree := signatureAgree_ofMethodType collapse hu (closed_render h).isNested
  rw [hread] at hagree
  exact (hagree.eq (showsNoQuote_signature collapse hspelled)).symm

end MethodType

end RubyDoc.Signature
