import Mathlib.Tactic.Common
import RubyDoc.Proofs.Syntax.Preorder
import RubyDoc.Syntax.Grammar

/-!
# The first fault of a tree

A tree is searched for its first fault with a stack of trees, and nodes that are not flagged are
not looked into.  What the stack holds, listed from the top down, is the part of the listing that
is still to come, less what lies below unflagged nodes.  If the flags are right, no fault is passed
over there, and the search finds the first fault of the listing (`faultLineFrom?_eq`).  Nothing is
said about trees with wrong flags: a fault below an unflagged node is not found.
-/

namespace RubyDoc.Syntax

namespace Node

/-- Is every node flagged exactly if it or something below it is a fault? -/
def Flagged : Node → Prop :=
  Everywhere fun n => n.hasError ↔ ∃ m ∈ n.preorder, m.isFault

instance (n : Node) : Decidable n.Flagged :=
  inferInstanceAs (Decidable (∀ m ∈ n.preorder, (m.hasError ↔ ∃ f ∈ m.preorder, f.isFault)))

namespace Flagged

variable {n : Node} {stack : List Node}

theorem find?_isSome (h : n.Flagged) : (n.preorder.find? isFault).isSome ↔ n.hasError := by
  rw [List.find?_isSome]
  exact (Everywhere.self h).symm

theorem find?_eq_none (h : n.Flagged) (hn : n.hasError = false) :
    n.preorder.find? isFault = none := by
  rw [← Option.not_isSome_iff_eq_none, h.find?_isSome, hn]
  exact Bool.false_ne_true

/-- A node that makes room for its children leaves right flags on the stack. -/
theorem pushChildren (h : ∀ m ∈ n :: stack, m.Flagged) :
    ∀ m ∈ n.pushChildren stack, m.Flagged := by
  obtain ⟨hn, hstack⟩ := List.forall_mem_cons.1 h
  rw [pushChildren_eq]
  exact List.forall_mem_append.2 ⟨fun c hc => Everywhere.child hn hc, hstack⟩

end Flagged

/-- **The search finds the first fault in the listing of what is on the stack.** -/
theorem faultLineFrom?_eq (stack : List Node) (h : ∀ n ∈ stack, n.Flagged) :
    faultLineFrom? stack = ((preorderList stack).find? isFault).map line := by
  fun_induction faultLineFrom? stack with
  | case1 =>
      rw [preorderList]
      rfl
  | case2 n stack hfault =>
      rw [preorderList, preorder_eq, List.cons_append, List.find?_cons_of_pos hfault]
      rfl
  | case3 n stack hfault _ ih =>
      rw [ih (Flagged.pushChildren h), pushChildren_eq, preorderList, preorder_eq, List.cons_append,
        List.find?_cons_of_neg hfault, preorderList_append]
  | case4 n stack _ hflag ih =>
      -- The whole tree is left out at once, and there is no fault in it.
      obtain ⟨hn, hstack⟩ := List.forall_mem_cons.1 h
      have hnone := hn.find?_eq_none (Bool.eq_false_iff.2 hflag)
      rw [ih hstack, preorderList, List.find?_append, hnone, Option.none_or]

theorem Flagged.firstFaultLine?_eq {n : Node} (h : n.Flagged) :
    n.firstFaultLine? = (n.preorder.find? isFault).map line := by
  rw [firstFaultLine?, faultLineFrom?_eq [n] (List.forall_mem_singleton.2 h), preorderList,
    preorderList, List.append_nil]

end Node

open Node

/-- **A text that is no Ruby is refused with the line of its first fault.**  For every tree whose
flags are right, the search finds the line of the first fault in the listing, and it finds one
exactly if the root is flagged.  The text is refused exactly then, by a failure whose wording names
that line. -/
theorem first_fault_named {root : Node} (h : root.Flagged) :
    root.firstFaultLine? = (root.preorder.find? isFault).map line ∧
      (root.hasError ↔ ∃ n, root.firstFaultLine? = some n) ∧
      ∀ (g : Grammar) (file text : Text), g text = some root →
        (root.hasError = false → g.parse file text = .ok root) ∧
        (root.hasError → ∃ fault, root.preorder.find? isFault = some fault ∧
          g.parse file text = .error (.unparsable file (some fault.line)) ∧
          (Failure.unparsable file (some fault.line)).message =
            "Syntax error in " ++ file ++ (":" ++ Text.ofNat fault.line)) := by
  have hline := h.firstFaultLine?_eq
  refine ⟨hline, ?_, fun g file text hg => ⟨fun hflag => ?_, fun hflag => ?_⟩⟩
  · rw [← h.find?_isSome, hline, ← Option.isSome_iff_exists, Option.isSome_map]
  · rw [Grammar.parse, hg]
    exact if_neg (by simp [hflag])
  · obtain ⟨fault, hfault⟩ := Option.isSome_iff_exists.1 (h.find?_isSome.2 hflag)
    refine ⟨fault, hfault, ?_, rfl⟩
    rw [Grammar.parse, hg]
    simp only [hflag, if_true, hline, hfault, Option.map_some]

/-- A method without faults, a method whose `end` was supplied two rows below its name, and text
that could not be read behind it. -/
def brokenTree : Node :=
  let leaf (kind : Kind) (row : Nat) : Node := ⟨kind, none, 0, 0, row, true, false, false, []⟩
  let supplied : Node := { leaf (.other "end") 3 with isNamed := false, isMissing := true,
                                                      hasError := true }
  { leaf .program 0 with
    hasError := true
    children := [{ leaf .method 0 with children := [leaf .identifier 0] },
      { leaf .method 1 with hasError := true, children := [leaf .identifier 1, supplied] },
      { leaf .error 4 with hasError := true }] }

/-- Of two faults the first one in the listing is named; the method without faults is passed
over. -/
theorem first_fault_named_supplied :
    brokenTree.Flagged ∧ brokenTree.hasError ∧ brokenTree.firstFaultLine? = some 4 ∧
      Grammar.parse (fun _ => some brokenTree) "a.rb" "def a" =
        .error (.unparsable "a.rb" (some 4)) := by
  have hflagged : brokenTree.Flagged := by decide
  have hroot : brokenTree.hasError := by decide
  have hfirst : (brokenTree.preorder.find? isFault).map line = some 4 := by decide
  obtain ⟨hline, -, hparse⟩ := first_fault_named hflagged
  obtain ⟨fault, hfault, hrefused, -⟩ :=
    (hparse (fun _ => some brokenTree) "a.rb" "def a" rfl).2 hroot
  rw [hfault, Option.map_some] at hfirst
  refine ⟨hflagged, hroot, by rw [hline, hfault]; exact hfirst, ?_⟩
  rw [hrefused, hfirst]

end RubyDoc.Syntax
