import Mathlib.Logic.Relation
import RubyDoc.Syntax.Source

/-!
# Trees without remarks

A remark is a comment that nothing stands below and no field names.  Trees that differ by remarks
are the same once these are cleared away (`Remarked.cleared_eq`), so a question about trees is blind
to remarks as soon as it has the same answer for a tree and for the cleared one.  The accessors of
this file have, each for its own reason: they go by a field, which remarks lack, or they pass over
comments.
-/

namespace RubyDoc.Syntax.Node

/-- A comment with nothing below it that fills no field. -/
def isRemark (n : Node) : Bool :=
  n.isNamed && n.kind = .comment && n.field.isNone && n.children.isEmpty

/-- The second tree is the first with one remark more, among the children of any node. -/
inductive Remarked : Node → Node → Prop
  | here {n remark : Node} {before after : List Node} (hn : n.children = before ++ after)
      (hremark : remark.isRemark) :
      Remarked n { n with children := before ++ remark :: after }
  | inside {n c c' : Node} {before after : List Node} (hn : n.children = before ++ c :: after)
      (h : Remarked c c') : Remarked n { n with children := before ++ c' :: after }

mutual

/-- The tree without its remarks.  A comment that has only remarks below it becomes one, and goes
with them. -/
def cleared : Node → Node
  | ⟨kind, field, startByte, endByte, row, isNamed, isMissing, hasError, children⟩ =>
      ⟨kind, field, startByte, endByte, row, isNamed, isMissing, hasError, clearedList children⟩

/-- The trees without their remarks, those that are remarks left out. -/
def clearedList : List Node → List Node
  | [] => []
  | c :: cs => if c.cleared.isRemark then clearedList cs else c.cleared :: clearedList cs

end

theorem cleared_eq (n : Node) : n.cleared = { n with children := clearedList n.children } := by
  cases n
  rw [cleared]

section Parts

variable (n : Node)

@[simp] theorem kind_cleared : n.cleared.kind = n.kind := by rw [cleared_eq]

@[simp] theorem field_cleared : n.cleared.field = n.field := by rw [cleared_eq]

@[simp] theorem startByte_cleared : n.cleared.startByte = n.startByte := by rw [cleared_eq]

@[simp] theorem endByte_cleared : n.cleared.endByte = n.endByte := by rw [cleared_eq]

@[simp] theorem row_cleared : n.cleared.row = n.row := by rw [cleared_eq]

@[simp] theorem isNamed_cleared : n.cleared.isNamed = n.isNamed := by rw [cleared_eq]

@[simp] theorem children_cleared : n.cleared.children = clearedList n.children := by
  rw [cleared_eq]

@[simp] theorem isCode_cleared : n.cleared.isCode = n.isCode := by
  rw [isCode, isCode, isNamed_cleared, kind_cleared]

@[simp] theorem line_cleared : n.cleared.line = n.line := by
  rw [line, line, row_cleared]

@[simp] theorem textOf_cleared (s : Source) : s.textOf n.cleared = s.textOf n := by
  rw [Source.textOf, Source.textOf, startByte_cleared, endByte_cleared]

end Parts

/-! ## Remarks that are cleared -/

section Remarks

variable {n : Node}

theorem isRemark_iff : n.isRemark ↔
    n.isNamed ∧ n.kind = .comment ∧ n.field = none ∧ n.children = [] := by
  simp [isRemark, and_assoc]

theorem kind_of_isRemark (h : n.isRemark) : n.kind = .comment := (isRemark_iff.1 h).2.1

theorem field_of_isRemark (h : n.isRemark) : n.field = none := (isRemark_iff.1 h).2.2.1

theorem children_of_isRemark (h : n.isRemark) : n.children = [] := (isRemark_iff.1 h).2.2.2

theorem isCode_of_isRemark (h : n.isRemark) : n.isCode = false := by
  simp [isCode, kind_of_isRemark h]

theorem cleared_of_isRemark (h : n.isRemark) : n.cleared = n := by
  obtain ⟨kind, field, startByte, endByte, row, isNamed, isMissing, hasError, children⟩ := n
  obtain rfl : children = [] := children_of_isRemark h
  rw [cleared, clearedList]

theorem clearedList_append (cs ds : List Node) :
    clearedList (cs ++ ds) = clearedList cs ++ clearedList ds := by
  induction cs with
  | nil => rw [clearedList]; rfl
  | cons c cs ih =>
      rw [List.cons_append, clearedList, clearedList, ih]
      split <;> rfl

theorem clearedList_cons_of_isRemark (h : n.isRemark) (cs : List Node) :
    clearedList (n :: cs) = clearedList cs := by
  rw [clearedList, cleared_of_isRemark h, if_pos h]

/-- One remark more does not show once the remarks are cleared. -/
theorem Remarked.cleared_eq {n n' : Node} (h : Remarked n n') : n'.cleared = n.cleared := by
  induction h with
  | @here n remark before after hn hremark =>
      rw [Node.cleared_eq, Node.cleared_eq n, hn, clearedList_append, clearedList_append,
        clearedList_cons_of_isRemark hremark]
  | @inside n c c' before after hn _ ih =>
      rw [Node.cleared_eq, Node.cleared_eq n, hn, clearedList_append, clearedList_append,
        clearedList, clearedList, ih]

/-- Nor does any number of them. -/
theorem cleared_eq_of_remarked {n n' : Node} (h : Relation.ReflTransGen Remarked n n') :
    n'.cleared = n.cleared := by
  induction h with
  | refl => rfl
  | tail _ hstep ih => rw [hstep.cleared_eq, ih]

end Remarks

/-! ## Choosing among the children -/

section Choice

variable {p : Node → Bool}

/-- What passes over remarks, and looks only at what clearing keeps, chooses the same nodes. -/
theorem filter_clearedList (hcleared : ∀ c, p c.cleared = p c)
    (hremark : ∀ c, c.isRemark → p c = false) (cs : List Node) :
    (clearedList cs).filter p = (cs.filter p).map cleared := by
  induction cs with
  | nil => rw [clearedList]; rfl
  | cons c cs ih =>
      rw [clearedList, List.filter_cons, ← hcleared c]
      split
      · rename_i hc
        rw [hremark _ hc, ih]
        rfl
      · rw [List.filter_cons, ih]
        split <;> rfl

theorem find?_clearedList (hcleared : ∀ c, p c.cleared = p c)
    (hremark : ∀ c, c.isRemark → p c = false) (cs : List Node) :
    (clearedList cs).find? p = (cs.find? p).map cleared := by
  rw [← List.head?_filter, ← List.head?_filter, filter_clearedList hcleared hremark,
    List.head?_map]

theorem any_clearedList (hcleared : ∀ c, p c.cleared = p c)
    (hremark : ∀ c, c.isRemark → p c = false) (cs : List Node) :
    (clearedList cs).any p = cs.any p := by
  rw [Bool.eq_iff_iff, ← List.isSome_find?, ← List.isSome_find?]
  simp [find?_clearedList hcleared hremark]

end Choice

section Accessors

variable (n : Node)

theorem find?_field_clearedList (f : Field) (cs : List Node) :
    ((clearedList cs).find? fun c => c.field = some f) =
      (cs.find? fun c => c.field = some f).map cleared :=
  find?_clearedList (fun c => by rw [field_cleared])
    (fun c hc => by simp [field_of_isRemark hc]) cs

theorem any_field_clearedList (f : Field) (cs : List Node) :
    ((clearedList cs).any fun c => c.field = some f) = cs.any fun c => c.field = some f :=
  any_clearedList (fun c => by rw [field_cleared]) (fun c hc => by simp [field_of_isRemark hc]) cs

theorem filter_isCode_clearedList (cs : List Node) :
    (clearedList cs).filter isCode = (cs.filter isCode).map cleared :=
  filter_clearedList isCode_cleared (fun _ => isCode_of_isRemark) cs

@[simp] theorem child?_cleared (f : Field) : n.cleared.child? f = (n.child? f).map cleared := by
  rw [child?, children_cleared, find?_field_clearedList, child?]

@[simp] theorem code_cleared : n.cleared.code = n.code.map cleared := by
  rw [code, children_cleared, filter_isCode_clearedList, code]

@[simp] theorem codeOf_cleared (f : Field) : n.cleared.codeOf f = (n.codeOf f).map cleared := by
  rw [codeOf, codeOf, child?_cleared]
  cases n.child? f with
  | none => rfl
  | some c => exact code_cleared c

theorem body?_cleared : n.cleared.body? = n.body?.map cleared := by
  have hbody : (n.cleared.namedChildren.find? fun c => c.kind = .body) =
      (n.namedChildren.find? fun c => c.kind = .body).map cleared := by
    rw [namedChildren, namedChildren, List.find?_filter, List.find?_filter, children_cleared]
    exact find?_clearedList (fun c => by rw [isNamed_cleared, kind_cleared])
      (fun c hc => by simp [kind_of_isRemark hc]) n.children
  rw [body?, body?, child?_cleared, hbody]
  cases n.child? .body <;> rfl

theorem unclaimed_clearedList (fields : List Field) (cs : List Node) :
    (unclaimed fields (clearedList cs)).filter isCode =
      ((unclaimed fields cs).filter isCode).map cleared := by
  induction cs generalizing fields with
  | nil =>
      rw [clearedList, unclaimed]
      rfl
  | cons c cs ih =>
      rw [clearedList]
      split
      · rename_i hc
        -- Nothing claims a remark, and it is no code.
        have hfield : c.field = none := field_cleared c ▸ field_of_isRemark hc
        have hnot : c.isCode = false := isCode_cleared c ▸ isCode_of_isRemark hc
        rw [unclaimed, hfield, ih, List.filter_cons_of_neg (by simp [hnot])]
      · rw [unclaimed, unclaimed, field_cleared]
        split
        · rw [List.filter_cons, List.filter_cons, isCode_cleared, ih]
          split <;> rfl
        · split
          · exact ih _
          · rw [List.filter_cons, List.filter_cons, isCode_cleared, ih]
            split <;> rfl

theorem statements_cleared : n.cleared.statements = n.statements.map cleared := by
  rw [statements, statements, kind_cleared, body?_cleared]
  split
  · exact code_cleared n
  · cases n.body? with
    | none =>
        rw [children_cleared]
        exact unclaimed_clearedList _ _
    | some b =>
        show (if b.cleared.kind = .body then b.cleared.code else [b.cleared]) = _
        rw [kind_cleared, code_cleared]
        dsimp only
        split <;> rfl

@[simp] theorem arguments_cleared : n.cleared.arguments = n.arguments.map cleared := by
  rw [arguments, arguments, kind_cleared, codeOf_cleared]
  split <;> rfl

@[simp] theorem isReceiverless_cleared : n.cleared.isReceiverless = n.isReceiverless := by
  rw [isReceiverless, isReceiverless, kind_cleared, child?_cleared, Option.isNone_map]

end Accessors

end RubyDoc.Syntax.Node

namespace RubyDoc.Syntax.Source

variable (s : Source) (n : Node)

theorem map_textOf_cleared (c : Option Node) :
    (c.map Node.cleared).map s.textOf = c.map s.textOf := by
  rw [Option.map_map]
  exact congrArg (Option.map · c) (funext fun c => c.textOf_cleared s)

@[simp] theorem callName?_cleared : s.callName? n.cleared = s.callName? n := by
  rw [callName?, callName?, Node.kind_cleared, Node.textOf_cleared, Node.child?_cleared,
    map_textOf_cleared]

@[simp] theorem definitionName?_cleared : s.definitionName? n.cleared = s.definitionName? n := by
  rw [definitionName?, definitionName?, Node.child?_cleared, map_textOf_cleared]

@[simp] theorem symbolName?_cleared : s.symbolName? n.cleared = s.symbolName? n := by
  simp [symbolName?, List.all_map, List.flatMap_map, Function.comp_def]

end RubyDoc.Syntax.Source
