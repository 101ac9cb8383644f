import Mathlib.Tactic.Common
import RubyDoc.Outline.Item

/-!
# The outline of a statement and of a body

The outline of a body is that of its statements (`ofRoot_eq_flatMap`), and what a statement is in an
outline depends on its kind alone: a definition, a directive, a body of its own, or else only the
containers nested in it.
-/

namespace RubyDoc.Outline

open Syntax

/-! ## The statements of a body -/

variable (s : Source)

theorem statementItems_eq (cs : List Node) :
    statementItems s cs = (cs.filter Node.isCode).flatMap (items s) := by
  induction cs with
  | nil => rw [statementItems]; rfl
  | cons c cs ih =>
      rw [statementItems, ih, List.filter_cons]
      split <;> simp

theorem blockItems_eq (n : Node) : blockItems s n = n.code.flatMap (items s) := by
  obtain ⟨kind, field, startByte, endByte, row, isNamed, isMissing, hasError, children⟩ := n
  rw [blockItems, statementItems_eq]
  rfl

theorem unclaimedItems_eq (fields : List Field) (cs : List Node) :
    unclaimedItems s fields cs =
      ((Node.unclaimed fields cs).filter Node.isCode).flatMap (items s) := by
  induction cs generalizing fields with
  | nil => rw [unclaimedItems, Node.unclaimed]; rfl
  | cons c cs ih =>
      rw [unclaimedItems, Node.unclaimed]
      cases c.field with
      | none =>
          simp only [ih, List.filter_cons]
          split <;> simp
      | some f =>
          by_cases hf : f ∈ fields
          · simp only [hf, if_true, ih]
          · simp only [hf, if_false, ih, List.filter_cons]
            split <;> simp

theorem bodyFieldItems_eq {cs : List Node} {b : Node}
    (h : (cs.find? fun c => c.field = some .body) = some b) :
    bodyFieldItems s cs = if b.kind = .body then b.code.flatMap (items s) else items s b := by
  induction cs with
  | nil => cases h
  | cons c cs ih =>
      rw [bodyFieldItems]
      by_cases hc : c.field = some .body
      · rw [List.find?_cons_of_pos (by simpa using hc)] at h
        obtain rfl := Option.some.inj h
        rw [if_pos hc, blockItems_eq]
      · rw [List.find?_cons_of_neg (by simpa using hc)] at h
        rw [if_neg hc, ih h]

theorem bodyNodeItems_eq {cs : List Node} {b : Node}
    (h : (cs.find? fun c => c.isNamed && c.kind = .body) = some b) :
    bodyNodeItems s cs = b.code.flatMap (items s) := by
  induction cs with
  | nil => cases h
  | cons c cs ih =>
      rw [bodyNodeItems]
      by_cases hc : c.isNamed && c.kind = .body
      · rw [List.find?_cons_of_pos (by simpa using hc)] at h
        obtain rfl := Option.some.inj h
        rw [if_pos hc, blockItems_eq]
      · rw [List.find?_cons_of_neg (by simpa using hc)] at h
        rw [if_neg hc, ih h]

theorem find?_namedChildren (n : Node) :
    (n.namedChildren.find? fun c => c.kind = .body) =
      n.children.find? fun c => c.isNamed && c.kind = .body := by
  rw [Node.namedChildren, List.find?_filter]
  simp

/-- The outline of a body is the outline of its statements. -/
theorem ofRoot_eq_flatMap (n : Node) : ofRoot s n = n.statements.flatMap (items s) := by
  by_cases hprogram : n.kind = .program
  · rw [ofRoot, Node.statements, if_pos hprogram, if_pos hprogram, statementItems_eq]
    rfl
  rw [ofRoot, Node.statements, if_neg hprogram, if_neg hprogram, bodyItems]
  cases hfield : n.children.find? fun c => c.field = some .body with
  | some b =>
      have hany : n.children.any fun c => c.field = some .body := by
        simpa using List.find?_isSome.1 (Option.isSome_of_mem hfield)
      have hbody : n.body? = some b := by
        simp [Node.body?, Node.child?, hfield]
      rw [if_pos hany, hbody, bodyFieldItems_eq s hfield]
      dsimp only
      split <;> simp
  | none =>
      have hany : ¬ n.children.any fun c => c.field = some .body := by
        simpa using hfield
      rw [if_neg hany]
      cases hnode : n.children.find? fun c => c.isNamed && c.kind = .body with
      | some b =>
          have hkind : b.kind = .body := by
            have := List.find?_some hnode
            simp_all
          have hbody : n.body? = some b := by
            simp [Node.body?, Node.child?, hfield, find?_namedChildren, hnode]
          have hsome : n.children.any fun c => c.isNamed && c.kind = .body := by
            simpa using List.find?_isSome.1 (Option.isSome_of_mem hnode)
          rw [if_pos hsome, hbody, bodyNodeItems_eq s hnode]
          simp [hkind]
      | none =>
          have hbody : n.body? = none := by
            simp [Node.body?, Node.child?, hfield, find?_namedChildren, hnode]
          have hnone : ¬ n.children.any fun c => c.isNamed && c.kind = .body := by
            simpa using hnode
          rw [if_neg hnone, hbody, unclaimedItems_eq]

/-! ## The outline of a statement -/

theorem kind_of_directive {s : Source} {n : Node} {d : Directive} (h : directive? s n = some d) :
    n.kind = .identifier ∨ n.kind = .call := by
  rw [directive?] at h
  split at h
  · rename_i hreceiverless
    simp only [Node.isReceiverless, Bool.or_eq_true, Bool.and_eq_true, decide_eq_true_eq]
      at hreceiverless
    exact hreceiverless.imp_right And.left
  · cases h

theorem items_method {n : Node} (h : n.kind = .method) :
    items s n = ((methodName? s n).map (.method n)).toList := by
  obtain ⟨kind, field, startByte, endByte, row, isNamed, isMissing, hasError, children⟩ := n
  obtain rfl : kind = .method := h
  rw [items]

theorem items_singletonMethod {n : Node} (h : n.kind = .singletonMethod) :
    items s n = ((methodName? s n).map (.singletonMethod n)).toList := by
  obtain ⟨kind, field, startByte, endByte, row, isNamed, isMissing, hasError, children⟩ := n
  obtain rfl : kind = .singletonMethod := h
  rw [items]

theorem items_singletonClass {n : Node} (h : n.kind = .singletonClass) :
    items s n = [.singletonClass (opensOnSelf n) (ofRoot s n)] := by
  have hprogram : n.kind ≠ .program := by simp [h]
  rw [ofRoot, if_neg hprogram]
  obtain ⟨kind, field, startByte, endByte, row, isNamed, isMissing, hasError, children⟩ := n
  obtain rfl : kind = .singletonClass := h
  rw [items]

theorem items_container {n : Node} (h : isContainer n) :
    items s n = [.container (containerSegment s n) (ofRoot s n)] := by
  have hkind : n.kind = .classDef ∨ n.kind = .moduleDef := by simpa [isContainer] using h
  have hprogram : n.kind ≠ .program := by rcases hkind with h | h <;> simp [h]
  rw [ofRoot, if_neg hprogram]
  obtain ⟨kind, field, startByte, endByte, row, isNamed, isMissing, hasError, children⟩ := n
  rcases hkind with rfl | rfl <;> rw [items]

theorem items_directive {n : Node} {d : Directive} (h : directive? s n = some d) :
    items s n = [directiveItem s n d] := by
  have hkind := kind_of_directive h
  obtain ⟨kind, field, startByte, endByte, row, isNamed, isMissing, hasError, children⟩ := n
  rcases hkind with rfl | rfl <;> simp only [items, h]

/-- A statement of any other kind contributes the containers nested in it. -/
theorem items_other {n : Node} (hmethod : n.kind ≠ .method)
    (hsingleton : n.kind ≠ .singletonMethod) (hclass : n.kind ≠ .singletonClass)
    (hcontainer : isContainer n = false) (h : directive? s n = none) :
    items s n = nestedItems s n.children := by
  obtain ⟨kind, field, startByte, endByte, row, isNamed, isMissing, hasError, children⟩ := n
  simp only [isContainer, Bool.or_eq_false_iff, decide_eq_false_iff_not] at hcontainer
  rw [items, h]
  -- The equation of this case asks that the kind is none of the others.
  · intro _ hkind _
    exact hmethod hkind
  · intro _ hkind _
    exact hsingleton hkind
  · intro _ hkind _
    exact hclass hkind
  · intro _ hkind _
    exact hcontainer.1 hkind
  · intro _ hkind _
    exact hcontainer.2 hkind

/-- Is the item a class or module? -/
def Item.IsContainer (item : Item) : Prop :=
  ∃ segment inner, item = .container segment inner

mutual

theorem isContainer_of_mem_nestedItems :
    ∀ {cs : List Node} {item : Item}, item ∈ nestedItems s cs → item.IsContainer
  | [], item, h => by
      rw [nestedItems] at h
      cases h
  | c :: cs, item, h => by
      rw [nestedItems, List.mem_append] at h
      rcases h with h | h
      · split at h
        · split at h
          · rename_i hc
            rw [items_container s hc, List.mem_singleton] at h
            exact ⟨_, _, h⟩
          · exact isContainer_of_mem_itemsBelow h
        · cases h
      · exact isContainer_of_mem_nestedItems h

theorem isContainer_of_mem_itemsBelow :
    ∀ {n : Node} {item : Item}, item ∈ itemsBelow s n → item.IsContainer
  | ⟨_, _, _, _, _, _, _, _, children⟩, item, h => by
      rw [itemsBelow] at h
      exact isContainer_of_mem_nestedItems h

end

/-! ## Arguments -/

theorem kind_of_attribute {n : Node} {access : Access}
    (h : directive? s n = some (.attribute access)) : n.kind = .call := by
  rw [directive?] at h
  split at h
  · split at h
    · split at h
      · assumption
      · cases h
    · rename_i hother
      exact absurd h (hother access)
  · cases h

theorem argument?_method {n : Node} (h : n.kind = .method) :
    argument? s n = (methodName? s n).map (.method n) := by
  rw [argument?, h]

theorem argument?_singletonMethod {n : Node} (h : n.kind = .singletonMethod) :
    argument? s n = (methodName? s n).map (.singletonMethod n) := by
  rw [argument?, h]

theorem argument?_attribute {n : Node} {access : Access}
    (h : directive? s n = some (.attribute access)) :
    argument? s n = some (.attributes n access (attributeNames s n)) := by
  rw [argument?, kind_of_attribute s h, h]

theorem argument?_other {n : Node} (hmethod : n.kind ≠ .method)
    (hsingleton : n.kind ≠ .singletonMethod)
    (h : ∀ access, directive? s n ≠ some (.attribute access)) :
    argument? s n = (s.symbolName? n).map .named := by
  rw [argument?]
  split
  · exact absurd ‹_› hmethod
  · exact absurd ‹_› hsingleton
  · split
    · exact absurd ‹_› (h _)
    · rfl

end RubyDoc.Outline
