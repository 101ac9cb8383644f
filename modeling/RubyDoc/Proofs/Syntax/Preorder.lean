import Mathlib.Data.List.Basic
import RubyDoc.Syntax.Node

/-!
# The nodes of a tree

Which nodes the listing of a tree has: the node itself, and what the listings of its children have.
So a node that is reached through fields, lists and statements is one of the tree.  What holds of a
node if it holds of the code and of the statements in it holds of every node
(`statement_induction`).
-/

namespace RubyDoc.Syntax.Node

theorem mem_preorderList {m : Node} {cs : List Node} :
    m ∈ preorderList cs ↔ ∃ c ∈ cs, m ∈ c.preorder := by
  induction cs with
  | nil => simp [preorderList]
  | cons c cs ih => simp [preorderList, ih]

theorem mem_preorder_self (n : Node) : n ∈ n.preorder := by
  rw [preorder_eq]
  exact List.mem_cons_self

theorem mem_preorder_of_child {n c m : Node} (hc : c ∈ n.children) (hm : m ∈ c.preorder) :
    m ∈ n.preorder := by
  rw [preorder_eq]
  exact List.mem_cons_of_mem _ (mem_preorderList.2 ⟨c, hc, hm⟩)

theorem mem_children_of_child? {n c : Node} {f : Field} (h : n.child? f = some c) :
    c ∈ n.children :=
  List.mem_of_find?_eq_some h

theorem mem_children_of_code {n c : Node} (h : c ∈ n.code) : c ∈ n.children :=
  List.mem_of_mem_filter h

/-- What a field lists are children of a child. -/
theorem exists_child_of_codeOf {n c : Node} {f : Field} (h : c ∈ n.codeOf f) :
    ∃ m ∈ n.children, c ∈ m.children := by
  rw [codeOf] at h
  cases hchild : n.child? f with
  | none =>
      rw [hchild] at h
      cases h
  | some m =>
      rw [hchild] at h
      exact ⟨m, mem_children_of_child? hchild, mem_children_of_code h⟩

theorem isNamed_of_isCode {c : Node} (h : c.isCode) : c.isNamed :=
  (Bool.and_eq_true_iff.1 h).1

theorem mem_of_mem_unclaimed {fields : List Field} {cs : List Node} {c : Node}
    (h : c ∈ unclaimed fields cs) : c ∈ cs := by
  induction cs generalizing fields with
  | nil => cases h
  | cons d ds ih =>
      rw [unclaimed] at h
      split at h
      · rcases List.mem_cons.1 h with rfl | h
        · exact List.mem_cons_self
        · exact List.mem_cons_of_mem _ (ih h)
      · split at h
        · exact List.mem_cons_of_mem _ (ih h)
        · rcases List.mem_cons.1 h with rfl | h
          · exact List.mem_cons_self
          · exact List.mem_cons_of_mem _ (ih h)

/-- The first child that claims the field is not left over. -/
theorem mem_eraseP_of_mem_unclaimed {fields : List Field} {f : Field} (hf : f ∈ fields)
    {cs : List Node} {c : Node} (h : c ∈ unclaimed fields cs) :
    c ∈ cs.eraseP fun d => d.field = some f := by
  induction cs generalizing fields with
  | nil => cases h
  | cons d ds ih =>
      by_cases hd : d.field = some f
      · rw [unclaimed, hd] at h
        rw [List.eraseP_cons_of_pos (by simpa using hd)]
        simp only [if_pos hf] at h
        exact mem_of_mem_unclaimed h
      · rw [List.eraseP_cons_of_neg (by simpa using hd)]
        rw [unclaimed] at h
        split at h
        · rcases List.mem_cons.1 h with rfl | h
          · exact List.mem_cons_self
          · exact List.mem_cons_of_mem _ (ih hf h)
        · rename_i g hg
          split at h
          · have hne : f ≠ g := fun heq => hd (heq ▸ hg)
            exact List.mem_cons_of_mem _ (ih (List.mem_filter.2 ⟨hf, by simpa using hne⟩) h)
          · rcases List.mem_cons.1 h with rfl | h
            · exact List.mem_cons_self
            · exact List.mem_cons_of_mem _ (ih hf h)

theorem mem_children_of_body? {n c : Node} (h : n.body? = some c) : c ∈ n.children := by
  rw [body?] at h
  cases hchild : n.child? .body with
  | some m =>
      rw [hchild] at h
      obtain rfl : m = c := Option.some.inj h
      exact mem_children_of_child? hchild
  | none =>
      rw [hchild] at h
      exact List.mem_of_mem_filter (List.mem_of_find?_eq_some h)

/-- A statement is a child, or a child of the body. -/
theorem mem_statements {n c : Node} (h : c ∈ n.statements) :
    c ∈ n.children ∨ ∃ m ∈ n.children, c ∈ m.children := by
  rw [statements] at h
  split at h
  · exact Or.inl (mem_children_of_code h)
  · split at h
    · rename_i m hbody
      have hm := mem_children_of_body? hbody
      split at h
      · exact Or.inr ⟨m, hm, mem_children_of_code h⟩
      · obtain rfl := List.mem_singleton.1 h
        exact Or.inl hm
    · exact Or.inl (mem_of_mem_unclaimed (List.mem_of_mem_filter h))

theorem sizeOf_lt_of_mem_children {n c : Node} (h : c ∈ n.children) : sizeOf c < sizeOf n := by
  have hlt := List.sizeOf_lt_of_mem h
  obtain ⟨kind, field, startByte, endByte, row, isNamed, isMissing, hasError, children⟩ := n
  simp only [Node.mk.sizeOf_spec]
  simp only at hlt
  omega

/-- The statements of a body are below it. -/
theorem sizeOf_lt_of_mem_statements {n c : Node} (h : c ∈ n.statements) :
    sizeOf c < sizeOf n := by
  rcases mem_statements h with h | ⟨m, hm, h⟩
  · exact sizeOf_lt_of_mem_children h
  · exact Nat.lt_trans (sizeOf_lt_of_mem_children h) (sizeOf_lt_of_mem_children hm)

/-- Induction into what is directly below a node and into the statements of its body. -/
theorem statement_induction {motive : Node → Prop}
    (step : ∀ n, (∀ c ∈ n.code, motive c) → (∀ c ∈ n.statements, motive c) → motive n) (n : Node) :
    motive n := by
  induction hsize : sizeOf n using Nat.strongRecOn generalizing n with
  | ind size ih =>
    subst hsize
    exact step n
      (fun c hc => ih _ (sizeOf_lt_of_mem_children (mem_children_of_code hc)) c rfl)
      fun c hc => ih _ (sizeOf_lt_of_mem_statements hc) c rfl

/-- Does `P` hold of every node of the tree? -/
def Everywhere (P : Node → Prop) (n : Node) : Prop :=
  ∀ m ∈ n.preorder, P m

namespace Everywhere

variable {P : Node → Prop} {n c : Node}

theorem self (h : Everywhere P n) : P n :=
  h n (mem_preorder_self n)

theorem child (h : Everywhere P n) (hc : c ∈ n.children) : Everywhere P c :=
  fun m hm => h m (mem_preorder_of_child hc hm)

theorem codeOf {f : Field} (h : Everywhere P n) (hc : c ∈ n.codeOf f) : Everywhere P c := by
  obtain ⟨m, hm, hc⟩ := exists_child_of_codeOf hc
  exact (h.child hm).child hc

theorem statement (h : Everywhere P n) (hc : c ∈ n.statements) : Everywhere P c := by
  rcases mem_statements hc with hc | ⟨m, hm, hc⟩
  · exact h.child hc
  · exact (h.child hm).child hc

end Everywhere

mutual

theorem everywhere_everywhere {P : Node → Prop} :
    ∀ n : Node, Everywhere P n → Everywhere (Everywhere P) n
  | ⟨kind, field, start, stop, row, named, missing, error, children⟩, h => by
      intro m hm
      rw [preorder_eq] at hm
      rcases List.mem_cons.1 hm with rfl | hm
      · exact h
      · exact everywhere_of_mem_preorderList children (fun c hc => h.child hc) m hm

theorem everywhere_of_mem_preorderList {P : Node → Prop} :
    ∀ cs : List Node, (∀ c ∈ cs, Everywhere P c) → ∀ m ∈ preorderList cs, Everywhere P m
  | [], _, m, hm => by
      rw [preorderList] at hm
      cases hm
  | c :: cs, h, m, hm => by
      obtain ⟨hc, hcs⟩ := List.forall_mem_cons.1 h
      rw [preorderList, List.mem_append] at hm
      rcases hm with hm | hm
      · exact everywhere_everywhere c hc m hm
      · exact everywhere_of_mem_preorderList cs hcs m hm

end

end RubyDoc.Syntax.Node
