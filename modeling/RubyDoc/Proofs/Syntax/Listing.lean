import RubyDoc.Proofs.Syntax.Fault
import RubyDoc.Syntax.Listing

/-!
# Trees from listings

A listing does not say which nodes are flagged.  The flag of a node is set when the node is closed,
from what the node is and from the flags of its children, so that the flags of every tree read from
a listing are right (`flagged_of_read?`): its first fault is found.
-/

namespace RubyDoc.Syntax

namespace Node

/-- The flags of a tree are right if those below the children are and the root's agrees with the
children's. -/
theorem Flagged.of_children {n : Node} (hchildren : ∀ c ∈ n.children, c.Flagged)
    (hn : n.hasError ↔ n.isFault ∨ ∃ c ∈ n.children, c.hasError) : n.Flagged := by
  intro m hm
  rw [preorder_eq] at hm
  rcases List.mem_cons.1 hm with rfl | hm
  · have hbelow : (∃ c ∈ m.children, c.hasError) ↔ ∃ f ∈ preorderList m.children, f.isFault := by
      constructor
      · rintro ⟨c, hc, hflag⟩
        obtain ⟨f, hf, hfault⟩ := (Everywhere.self (hchildren c hc)).1 hflag
        exact ⟨f, mem_preorderList.2 ⟨c, hc, hf⟩, hfault⟩
      · rintro ⟨f, hf, hfault⟩
        obtain ⟨c, hc, hf⟩ := mem_preorderList.1 hf
        exact ⟨c, hc, (Everywhere.self (hchildren c hc)).2 ⟨f, hf, hfault⟩⟩
    rw [hn, hbelow, preorder_eq]
    simp only [List.mem_cons, exists_eq_or_imp]
  · obtain ⟨c, hc, hm⟩ := mem_preorderList.1 hm
    exact hchildren c hc m hm

end Node

namespace Listing

open Node

variable {starts : List Nat}

/-- Are the flags right in all trees that the reading of a listing has come to? -/
structure Reading.Flagged (r : Reading) : Prop where
  opened : ∀ o ∈ r.opened, ∀ c ∈ o.children, c.Flagged
  root : ∀ n, r.root = some n → n.Flagged

theorem Opened.flagged_of_close? {o : Opened} {n : Node} (ho : ∀ c ∈ o.children, c.Flagged)
    (hn : o.close? starts = some n) : n.Flagged := by
  rw [Opened.close?] at hn
  split at hn
  · simp only [Option.bind_eq_bind, Option.bind_eq_some_iff, Option.some_inj] at hn
    obtain ⟨_, -, _, -, rfl⟩ := hn
    refine .of_children (fun c hc => ho c (List.mem_reverse.1 hc)) ?_
    simp [isFault]
  · cases hn

@[simp] theorem Opened.children_read (o : Opened) (w : String) :
    (o.read w).children = o.children := by
  rw [Opened.read]
  split
  · rfl
  · split <;> rfl

/-- Another innermost node with the same children has trees with right flags as well. -/
theorem Reading.Flagged.reopened {r : Reading} {o : Opened} {rest : List Opened} (hr : r.Flagged)
    (hopened : r.opened = o :: rest) {o' : Opened} (h : o'.children = o.children) :
    ({ r with opened := o' :: rest } : Reading).Flagged := by
  obtain ⟨ho, hrest⟩ := List.forall_mem_cons.1 (hopened ▸ hr.opened)
  exact ⟨List.forall_mem_cons.2 ⟨h ▸ ho, hrest⟩, hr.root⟩

/-- **One more piece leaves the flags right.** -/
theorem Reading.Flagged.step {r r' : Reading} {p : Piece} (hr : r.Flagged)
    (h : r.step starts p = some r') : r'.Flagged := by
  unfold Reading.step at h
  split at h
  · exact Option.some.inj h ▸ hr
  · split at h
    · -- A new node has no children yet.
      obtain rfl := Option.some.inj h
      exact ⟨List.forall_mem_cons.2 ⟨nofun, hr.opened⟩, nofun⟩
    · -- The closed node becomes a child of the node around it.
      rename_i o parent rest hopened
      obtain ⟨node, hnode, h⟩ := Option.bind_eq_some_iff.1 h
      obtain rfl := Option.some.inj h
      obtain ⟨ho, hmore⟩ := List.forall_mem_cons.1 (hopened ▸ hr.opened)
      obtain ⟨hparent, hrest⟩ := List.forall_mem_cons.1 hmore
      have hclosed := o.flagged_of_close? ho hnode
      exact ⟨List.forall_mem_cons.2 ⟨List.forall_mem_cons.2 ⟨hclosed, hparent⟩, hrest⟩, nofun⟩
    · -- The closed node is the tree.
      rename_i o hopened
      obtain ⟨node, hnode, h⟩ := Option.bind_eq_some_iff.1 h
      obtain rfl := Option.some.inj h
      refine ⟨nofun, fun n hn => ?_⟩
      obtain rfl := Option.some.inj hn
      exact o.flagged_of_close? (List.forall_mem_cons.1 (hopened ▸ hr.opened)).1 hnode
    · rename_i hopened
      obtain rfl := Option.some.inj h
      exact hr.reopened hopened rfl
    · rename_i hopened
      split at h
      · obtain rfl := Option.some.inj h
        exact ⟨hr.opened, hr.root⟩
      · obtain rfl := Option.some.inj h
        exact hr.reopened hopened (Opened.children_read _ _)
    · cases h

theorem Reading.Flagged.foldlM {pieces : List Piece} {r r' : Reading} (hr : r.Flagged)
    (h : pieces.foldlM (Reading.step starts) r = some r') : r'.Flagged := by
  induction pieces generalizing r with
  | nil =>
      obtain rfl := Option.some.inj h
      exact hr
  | cons p pieces ih =>
      rw [List.foldlM_cons] at h
      obtain ⟨next, hnext, h⟩ := Option.bind_eq_some_iff.1 h
      exact ih (hr.step hnext) h

/-- **The flags of a tree from a listing are right.** -/
theorem flagged_of_read? {text : Text} {listing : String} {n : Node}
    (h : read? text listing = some n) : n.Flagged := by
  obtain ⟨r, hr, hroot⟩ := Option.bind_eq_some_iff.1 h
  have hstart : ({} : Reading).Flagged := ⟨nofun, nofun⟩
  exact (hstart.foldlM hr).root n hroot

end Listing

end RubyDoc.Syntax
