import RubyDoc.Proofs.Signature.Index
import RubyDoc.Proofs.Signature.Literal.Member

/-!
# Signature files that differ between quotes

The reader of a file goes through requoted lines in step: the same blocks are open, the same method
is open with a type that is requoted, and the index has signatures that agree under the same keys.
Whether a type goes on in the next line is decided by its brackets, of which opaque contents leave
none open.  So requoted files make up the same index, unless it shows a quote
(`addText_eq_of_lineRequoted`).
-/

namespace RubyDoc.Signature

open Outline Text

/-! ## Indices -/

/-- The same keys in the same order, with signatures that agree. -/
abbrev IndexAgree : Index → Index → Prop :=
  List.Forall₂ fun entry entry' => entry.1 = entry'.1 ∧ SignatureAgree entry.2 entry'.2

theorem IndexAgree.refl (index : Index) : IndexAgree index index :=
  List.forall₂_same.2 fun _ _ => ⟨rfl, .refl _⟩

theorem lookup_isSome_eq {index index' : Index} (h : IndexAgree index index') (key : Key) :
    (index.lookup key).isSome = (index'.lookup key).isSome := by
  induction h with
  | nil => rfl
  | @cons entry entry' _ _ hentry _ ih =>
      obtain ⟨k, sig⟩ := entry
      obtain ⟨k', sig'⟩ := entry'
      obtain ⟨rfl, -⟩ := hentry
      rw [List.lookup_cons, List.lookup_cons]
      cases key == k with
      | true => rfl
      | false => exact ih

theorem indexAgree_add {index index' : Index} (h : IndexAgree index index') (key : Key)
    {sig sig' : Signature} (hsig : SignatureAgree sig sig') :
    IndexAgree (index.add key sig) (index'.add key sig') := by
  rw [Index.add, Index.add, lookup_isSome_eq h]
  split
  · exact h
  · exact List.rel_append h (.cons ⟨rfl, hsig⟩ .nil)

/-! ## Reading in step -/

/-- The same method, with types that are requoted. -/
structure OpenAlike (m m' : OpenMethod) : Prop where
  scopes : m.scopes = m'.scopes
  name : m.name = m'.name
  type : Requoted m.type m'.type

/-- The same place in two files. -/
structure ReaderAlike (r r' : Reader) : Prop where
  index : IndexAgree r.index r'.index
  blocks : r.blocks = r'.blocks
  method : Option.Rel OpenAlike r.method r'.method

theorem goesOn_eq {m m' : OpenMethod} (h : OpenAlike m m') {line line' : Text}
    (hline : Requoted line line') : m.goesOn line = m'.goesOn line' := by
  have hempty : m.type.isEmpty = m'.type.isEmpty := by
    rw [Bool.eq_iff_iff, List.isEmpty_iff, List.isEmpty_iff, h.type.eq_nil_iff]
  rw [OpenMethod.goesOn, OpenMethod.goesOn, hempty, h.type.bracketDepth_eq,
    hline.startsWith_eq _ (by decide)]

theorem openAlike_extend {m m' : OpenMethod} (h : OpenAlike m m') {line line' : Text}
    (hline : Requoted line line') : OpenAlike (m.extend line) (m'.extend line') where
  scopes := h.scopes
  name := h.name
  type := (h.type.append (.of_isUnquoted (by decide))).append hline

section Step

variable {collapse : Bool} {r r' : Reader}

theorem readerAlike_addMember (h : ReaderAlike r r') (scope : Scope) (name : Text)
    {sig sig' : Signature} (hsig : SignatureAgree sig sig') :
    ReaderAlike (r.addMember scope name sig) (r'.addMember scope name sig') where
  index := by
    have hcontainer : r.container = r'.container := by
      rw [Reader.container, Reader.container, h.blocks]
    rw [Reader.addMember, Reader.addMember, hcontainer]
    exact indexAgree_add h.index _ hsig
  blocks := h.blocks
  method := h.method

theorem readerAlike_foldl_addMember (scopes : List Scope) (name : Text) {sig sig' : Signature}
    (hsig : SignatureAgree sig sig') (h : ReaderAlike r r') :
    ReaderAlike (scopes.foldl (fun r scope => r.addMember scope name sig) r)
      (scopes.foldl (fun r scope => r.addMember scope name sig') r') := by
  induction scopes generalizing r r' with
  | nil => exact h
  | cons scope scopes ih => exact ih (readerAlike_addMember h scope name hsig)

theorem readerAlike_closeMethod (collapse : Bool) (h : ReaderAlike r r')
    (hnested : ∀ m, r.method = some m → IsNested m.type) :
    ReaderAlike (r.closeMethod collapse) (r'.closeMethod collapse) := by
  obtain ⟨index, blocks, method⟩ := r
  obtain ⟨index', blocks', method'⟩ := r'
  obtain ⟨hindex, hblocks, hmethod⟩ := h
  cases hmethod with
  | none => exact ⟨hindex, hblocks, .none⟩
  | @some m m' hm =>
      have hsig := signatureAgree_ofMethodType collapse hm.type (hnested m rfl)
      rw [Reader.closeMethod, Reader.closeMethod]
      dsimp only
      rw [← hm.scopes, ← hm.name]
      exact readerAlike_foldl_addMember m.scopes m.name hsig ⟨hindex, hblocks, .none⟩

theorem readerAlike_addAttribute (h : ReaderAlike r r') (access : Access) (scope : Scope)
    (name : Text) {type type' : Text} (htype : Agree type type') :
    ReaderAlike (r.addAttribute access scope name type)
      (r'.addAttribute access scope name type') := by
  have hreader : SignatureAgree { returnType := type } { returnType := type' } :=
    ⟨htype, .nil, .none, .none⟩
  have hwriter : SignatureAgree { returnType := type, paramTypes := [("value", type)] }
      { returnType := type', paramTypes := [("value", type')] } :=
    ⟨htype, .cons ⟨rfl, htype⟩ .nil, .none, .none⟩
  rw [Reader.addAttribute, Reader.addAttribute]
  cases access with
  | read => exact readerAlike_addMember h scope name hreader
  | write => exact readerAlike_addMember h scope _ hwriter
  | readWrite =>
      exact readerAlike_addMember (readerAlike_addMember h scope name hreader) scope _ hwriter

theorem readerAlike_declare (h : ReaderAlike r r') {d d' : Declaration}
    (hd : DeclarationAlike d d') :
    ReaderAlike (r.declare collapse d) (r'.declare collapse d') := by
  have hinside : r.inInterface = r'.inInterface := by
    rw [Reader.inInterface, Reader.inInterface, h.blocks]
  cases hd with
  | opening block closed =>
      simp only [Reader.declare]
      split
      · exact h
      · exact ⟨h.index, congrArg (block :: ·) h.blocks, h.method⟩
  | closing => exact ⟨h.index, congrArg List.tail h.blocks, h.method⟩
  | method scopes name htype =>
      simp only [Reader.declare, hinside]
      split
      · exact h
      · exact ⟨h.index, h.blocks, .some ⟨rfl, rfl, htype⟩⟩
  | «attribute» access scope name htype =>
      simp only [Reader.declare, hinside]
      split
      · exact h
      · exact readerAlike_addAttribute h access scope name (htype.agree_docType collapse)
  | other => exact h

/-- Requoted lines keep two readers in step. -/
theorem readerAlike_readLine (h : ReaderAlike r r') {line line' : Text}
    (hline : Requoted line line') (hdeclares : DeclaresFirst line)
    (hnested : ∀ m, r.method = some m → IsNested m.type) :
    ReaderAlike (r.readLine collapse line) (r'.readLine collapse line') := by
  have hclosed := readerAlike_closeMethod collapse h hnested
  have hdeclaration := declarationAlike_ofLine hline hdeclares
  obtain ⟨index, blocks, method⟩ := r
  obtain ⟨index', blocks', method'⟩ := r'
  have hmethod := h.method
  cases hmethod with
  | none => exact readerAlike_declare h hdeclaration
  | some hm =>
      rw [Reader.readLine, Reader.readLine]
      simp only [goesOn_eq hm hline]
      split
      · exact ⟨h.index, h.blocks, .some (openAlike_extend hm hline)⟩
      · exact readerAlike_declare hclosed hdeclaration

theorem readerAlike_foldl (h : ReaderAlike r r') {lines lines' : List Text}
    (hlines : List.Forall₂ Requoted lines lines') (hdeclares : ∀ line ∈ lines, DeclaresFirst line)
    (hnested : ∀ above, above <+: lines → ∀ m,
      (above.foldl (Reader.readLine collapse) r).method = some m → IsNested m.type) :
    ReaderAlike (lines.foldl (Reader.readLine collapse) r)
      (lines'.foldl (Reader.readLine collapse) r') := by
  induction hlines generalizing r r' with
  | nil => exact h
  | @cons line line' lines lines' hline _ ih =>
      obtain ⟨hfirst, hlater⟩ := List.forall_mem_cons.1 hdeclares
      refine ih (readerAlike_readLine h hline hfirst (hnested [] List.nil_prefix)) hlater ?_
      intro above habove
      exact hnested (line :: above) (List.cons_prefix_cons.2 ⟨rfl, habove⟩)

end Step

/-! ## Files -/

/-- Literals occur in a file as types only: a member is declared in front of the first literal in
its line, no type closes a bracket that it did not open, and no literal is shown. -/
structure LiteralsAreTypes (collapse : Bool) (index : Index) (file : Text) : Prop where
  declares : ∀ line ∈ file.records, DeclaresFirst (trim (withoutComment line))
  nested : ∀ above, above <+: file.records → ∀ m,
    (Reader.behind collapse index above).method = some m → IsNested m.type
  shown : ∀ entry ∈ (index.addText collapse file).drop index.length, ShowsNoQuote entry.2

/-- A file and the one with other contents of its literals make up indices that agree. -/
theorem indexAgree_addText {collapse : Bool} {index : Index} {file file' : Text}
    (h : List.Forall₂ LineRequoted file.records file'.records)
    (htypes : LiteralsAreTypes collapse index file) :
    IndexAgree (index.addText collapse file) (index.addText collapse file') := by
  have hlines : List.Forall₂ Requoted
      (file.records.map fun line => trim (withoutComment line))
      (file'.records.map fun line => trim (withoutComment line)) := by
    rw [List.forall₂_map_left_iff, List.forall₂_map_right_iff]
    exact h.imp fun _ _ => requoted_trim_withoutComment
  have hread : ReaderAlike (Reader.behind collapse index file.records)
      (Reader.behind collapse index file'.records) := by
    refine readerAlike_foldl ⟨.refl index, rfl, .none⟩ hlines
      (List.forall_mem_map.2 htypes.declares) fun above habove m hm => ?_
    obtain ⟨raw, hraw, rfl⟩ := List.prefix_map_iff.1 habove
    exact htypes.nested raw hraw m hm
  exact (readerAlike_closeMethod collapse hread (htypes.nested _ List.prefix_rfl)).index

theorem Index.prefix_addText (collapse : Bool) (index : Index) (file : Text) :
    index <+: index.addText collapse file :=
  (Reader.prefix_foldl collapse { index } _).trans (Reader.prefix_closeMethod collapse _)

theorem eq_of_indexAgree {index index' : Index} (h : IndexAgree index index')
    (hquote : ∀ entry ∈ index, ShowsNoQuote entry.2) : index' = index := by
  induction h with
  | nil => rfl
  | @cons entry entry' _ _ hentry _ ih =>
      obtain ⟨hfirst, hlater⟩ := List.forall_mem_cons.1 hquote
      rw [ih hlater, Prod.ext hentry.1 (hentry.2.eq hfirst)]

/-- The contents of literals do not matter where these are types. -/
theorem addText_eq_of_lineRequoted {collapse : Bool} {index : Index} {file file' : Text}
    (h : List.Forall₂ LineRequoted file.records file'.records)
    (htypes : LiteralsAreTypes collapse index file) :
    index.addText collapse file' = index.addText collapse file := by
  have hagree := indexAgree_addText h htypes
  have hshown := htypes.shown
  -- What was in the index before is left as it was, whatever it shows.
  obtain ⟨added, hadded⟩ := index.prefix_addText collapse file
  obtain ⟨added', hadded'⟩ := index.prefix_addText collapse file'
  rw [← hadded, ← hadded'] at hagree ⊢
  have hdrop := List.forall₂_drop index.length hagree
  rw [← hadded, List.drop_left] at hshown
  rw [List.drop_left, List.drop_left] at hdrop
  rw [eq_of_indexAgree hdrop hshown]

end RubyDoc.Signature
