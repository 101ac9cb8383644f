import RubyDoc.Proofs.Analysis.Search

/-!
# Which exceptions can be found

An exception that a method names is the default error or the class that some node of the method
names (`forall_mem_raisedTypes`).  So whatever stands where a class is expected, the exception found
for it is not the empty text.
-/

namespace RubyDoc.Analysis

open RubyDoc.Syntax Node

section Mentions

variable {s : Source} {Q : Text → Prop}

theorem forall_mem_handledErrors (hdefault : Q defaultError) {clause : Node}
    (h : clause.Everywhere fun m => Q (errorClass s m)) :
    ∀ error ∈ handledErrors s clause, Q error := by
  intro error herror
  rw [handledErrors] at herror
  split at herror
  · exact List.mem_singleton.1 herror ▸ hdefault
  · obtain ⟨n, hn, rfl⟩ := List.mem_map.1 herror
    exact (h.codeOf hn).self

theorem forall_mem_raisedBy? (hdefault : Q defaultError) {n : Node}
    (h : n.Everywhere fun m => Q (errorClass s m)) : ∀ error ∈ (raisedBy? s n).toList, Q error := by
  intro error herror
  rw [Option.mem_toList, raisedBy?] at herror
  split at herror
  · split at herror
    · split at herror
      · exact Option.some.inj herror ▸ hdefault
      · rename_i first rest harguments
        rw [← Option.some.inj herror]
        have hfirst : first ∈ n.arguments := harguments ▸ List.mem_cons_self
        rw [arguments] at hfirst
        split at hfirst
        · exact (h.codeOf hfirst).self
        · cases hfirst
    · cases herror
  · cases herror

theorem forall_mem_ownErrors (hdefault : Q defaultError) {n : Node}
    (h : n.Everywhere fun m => Q (errorClass s m)) : ∀ error ∈ ownErrors s n, Q error := by
  intro error herror
  rw [ownErrors] at herror
  split at herror
  · exact forall_mem_handledErrors hdefault h error herror
  · exact List.mem_singleton.1 herror ▸ hdefault
  · exact forall_mem_raisedBy? hdefault h error herror
  · exact forall_mem_raisedBy? hdefault h error herror
  · cases herror

/-- **What holds of the default error and of every class that is named holds of every exception of
a method.** -/
theorem forall_mem_raisedTypes (hdefault : Q defaultError) {method : Node}
    (h : method.Everywhere fun m => Q (errorClass s m)) :
    ∀ error ∈ raisedTypes s method, Q error := by
  intro error herror
  obtain ⟨n, hn, hown⟩ := (mem_raisedTypes s).1 herror
  exact forall_mem_ownErrors hdefault (hn.everywhere h) error hown

end Mentions

theorem defaultError_ne_nil : defaultError ≠ [] := List.cons_ne_nil _ _

theorem errorClass_ne_nil (s : Source) (n : Node) : errorClass s n ≠ [] := by
  rw [errorClass]
  cases h : (constantPath? s n).bind Source.nonempty? with
  | none => exact defaultError_ne_nil
  | some path =>
      obtain ⟨t, -, ht⟩ := Option.bind_eq_some_iff.1 h
      exact (Source.of_nonempty?_eq_some ht).2

/-- **Every exception of a method has a name.** -/
theorem ne_nil_of_mem_raisedTypes {s : Source} {method : Node} {error : Text}
    (h : error ∈ raisedTypes s method) : error ≠ [] :=
  forall_mem_raisedTypes (Q := fun error => error ≠ []) defaultError_ne_nil
    (fun n _ => errorClass_ne_nil s n) error h

end RubyDoc.Analysis
