import Mathlib.Data.List.Infix
import RubyDoc.Text.Basic

/-!
# Where a line break can come from

A text that is put together from fixed parts and from texts of other origin is broken only by one of
the latter: `BrokenBy P` says that a text with a line break has a text of `P` in it that has one
itself.  It is closed under putting texts together.
-/

namespace RubyDoc.Text

/-- Does the text have a symbol that ends a line? -/
def isBroken (t : Text) : Bool :=
  t.any fun s => s = Sym.lineFeed || s = Sym.carriageReturn

theorem isBroken_append (s t : Text) : isBroken (s ++ t) = (isBroken s || isBroken t) :=
  List.any_append

theorem isBroken_of_isInfix {s t : Text} (h : s <:+: t) (hs : isBroken s) : isBroken t := by
  obtain ⟨before, after, rfl⟩ := h
  rw [isBroken_append, isBroken_append, hs, Bool.or_true, Bool.true_or]

theorem isBroken_eq_false_iff {t : Text} :
    isBroken t = false ↔ Sym.lineFeed ∉ t ∧ Sym.carriageReturn ∉ t := by
  rw [isBroken, List.any_eq_false]
  constructor
  · intro h
    exact ⟨fun hmem => h _ hmem rfl, fun hmem => h _ hmem rfl⟩
  · rintro ⟨hfeed, hreturn⟩ s hs hend
    rw [Bool.or_eq_true, decide_eq_true_iff, decide_eq_true_iff] at hend
    rcases hend with rfl | rfl
    · exact hfeed hs
    · exact hreturn hs

/-- If the text is broken, is it so by a text of `P` that it has in it? -/
def BrokenBy (P : Text → Prop) (t : Text) : Prop :=
  isBroken t → ∃ u, P u ∧ isBroken u ∧ u <:+: t

namespace BrokenBy

variable {P : Text → Prop} {s t : Text}

theorem ofPart (h : P t) : BrokenBy P t :=
  fun ht => ⟨t, h, ht, List.infix_rfl⟩

theorem ofUnbroken (h : isBroken t = false) : BrokenBy P t := by
  intro ht
  rw [h] at ht
  cases ht

theorem append (hs : BrokenBy P s) (ht : BrokenBy P t) : BrokenBy P (s ++ t) := by
  intro hbroken
  rw [isBroken_append, Bool.or_eq_true] at hbroken
  rcases hbroken with hbroken | hbroken
  · obtain ⟨u, hu, hub, hin⟩ := hs hbroken
    exact ⟨u, hu, hub, hin.trans (List.prefix_append s t).isInfix⟩
  · obtain ⟨u, hu, hub, hin⟩ := ht hbroken
    exact ⟨u, hu, hub, hin.trans (List.suffix_append s t).isInfix⟩

theorem join {sep : Text} (hsep : BrokenBy P sep) {ts : List Text} (h : ∀ t ∈ ts, BrokenBy P t) :
    BrokenBy P (join sep ts) := by
  induction ts with
  | nil => exact ofUnbroken rfl
  | cons t ts ih =>
      obtain ⟨ht, hts⟩ := List.forall_mem_cons.1 h
      cases ts with
      | nil => exact ht
      | cons u rest => exact (ht.append hsep).append (ih hts)

theorem getD {t? : Option Text} {default : Text} (h : ∀ t, t? = some t → BrokenBy P t)
    (hdefault : BrokenBy P default) : BrokenBy P (t?.getD default) := by
  cases t? with
  | none => exact hdefault
  | some t => exact h t rfl

end BrokenBy

end RubyDoc.Text
