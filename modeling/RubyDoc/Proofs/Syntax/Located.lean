import Mathlib.Data.List.Flatten
import Mathlib.Data.List.Nodup
import RubyDoc.Proofs.Syntax.Preorder
import RubyDoc.Syntax.Source

/-!
# Where the nodes of a tree are

Equal nodes may stand at several places of one tree, so a node is told from the others by its place,
the way that leads to it.  Each place is listed once (`nodup_located`).  The parts of a node that
other questions start from, its code, its statements and its arguments, are spread in the tree: they
stand in the order of the listing, and none lies below another.  What is chosen from spread parts is
in the order of the listing again (`Spread.sublist`).  If the tree lies in its text as a parser
leaves it, the listing goes by where the nodes start (`LaidOut.pairwise_startByte`).
-/

namespace RubyDoc.Syntax

/-- A node with its place: the way to it, at each step the index of a child. -/
structure Located where
  place : List Nat
  node : Node

namespace Located

/-- The node as seen from further above. -/
def under (way : List Nat) (e : Located) : Located :=
  ⟨way ++ e.place, e.node⟩

/-- The children that no field in `fields` claims; each field claims its first child. -/
def unclaimed : (fields : List Field) → List Located → List Located
  | _, [] => []
  | fields, e :: es =>
      match e.node.field with
      | none => e :: unclaimed fields es
      | some f =>
          if f ∈ fields then unclaimed (fields.filter (· ≠ f)) es else e :: unclaimed fields es

end Located

namespace Node

mutual

/-- The nodes of a tree with their places, each node before its children. -/
def located : Node → List Located
  | n@⟨_, _, _, _, _, _, _, _, children⟩ => ⟨[], n⟩ :: locatedFrom 0 children

/-- The nodes of trees that are the children of one node from the index `i` on. -/
def locatedFrom (i : Nat) : List Node → List Located
  | [] => []
  | c :: cs => (located c).map (.under [i]) ++ locatedFrom (i + 1) cs

end

/-- Children of one node from the index `i` on. -/
def childrenFrom (i : Nat) : List Node → List Located
  | [] => []
  | c :: cs => ⟨[i], c⟩ :: childrenFrom (i + 1) cs

/-- The children with their places. -/
def childrenAt (n : Node) : List Located :=
  childrenFrom 0 n.children

/-- The named children without comments, with their places. -/
def codeAt (n : Node) : List Located :=
  n.childrenAt.filter fun e => e.node.isCode

/-- The first child that fills the field `f`, with its place. -/
def childAt? (n : Node) (f : Field) : Option Located :=
  n.childrenAt.find? fun e => e.node.field = some f

/-- The code of a node that stands further below. -/
def codeBelow (e : Located) : List Located :=
  e.node.codeAt.map (.under e.place)

/-- The arguments of a call with their places. -/
def argumentsAt (n : Node) : List Located :=
  if n.kind = .call then ((n.childAt? .arguments).map codeBelow).getD [] else []

/-- The body of a definition with its place. -/
def bodyAt? (n : Node) : Option Located :=
  n.childAt? .body <|>
    (n.childrenAt.filter fun e => e.node.isNamed).find? fun e => e.node.kind = .body

/-- The statements of a definition's body, or of the whole file, with their places. -/
def statementsAt (n : Node) : List Located :=
  if n.kind = .program then n.codeAt
  else match n.bodyAt? with
    | some b => if b.node.kind = .body then codeBelow b else [b]
    | none => (Located.unclaimed headingFields n.childrenAt).filter fun e => e.node.isCode

/-! ## The nodes at the places -/

theorem map_node_under (way : List Nat) (es : List Located) :
    (es.map (.under way)).map Located.node = es.map Located.node := by
  rw [List.map_map]
  rfl

theorem map_node_childrenFrom (i : Nat) (cs : List Node) :
    (childrenFrom i cs).map Located.node = cs := by
  induction cs generalizing i with
  | nil => rfl
  | cons c cs ih => rw [childrenFrom, List.map_cons, ih]

theorem map_node_childrenAt (n : Node) : n.childrenAt.map Located.node = n.children :=
  map_node_childrenFrom 0 n.children

theorem map_node_filter (p : Node → Bool) (es : List Located) :
    (es.filter fun e => p e.node).map Located.node = (es.map Located.node).filter p := by
  rw [List.filter_map]
  rfl

theorem map_node_find? (p : Node → Bool) (es : List Located) :
    (es.find? fun e => p e.node).map Located.node = (es.map Located.node).find? p := by
  rw [List.find?_map]
  rfl

theorem map_node_codeAt (n : Node) : n.codeAt.map Located.node = n.code := by
  rw [codeAt, map_node_filter isCode, map_node_childrenAt]
  rfl

theorem map_node_codeBelow (e : Located) : (codeBelow e).map Located.node = e.node.code := by
  rw [codeBelow, map_node_under, map_node_codeAt]

theorem map_node_childAt? (n : Node) (f : Field) :
    (n.childAt? f).map Located.node = n.child? f := by
  rw [childAt?, map_node_find? fun c => c.field = some f, map_node_childrenAt]
  rfl

theorem map_node_argumentsAt (n : Node) : n.argumentsAt.map Located.node = n.arguments := by
  rw [argumentsAt, arguments, codeOf, ← map_node_childAt?]
  split
  · cases n.childAt? .arguments with
    | none => rfl
    | some e => exact map_node_codeBelow e
  · rfl

theorem map_node_bodyAt? (n : Node) : n.bodyAt?.map Located.node = n.body? := by
  have hnamed : (n.childrenAt.filter fun e => e.node.isNamed).map Located.node =
      n.namedChildren := by
    rw [map_node_filter isNamed, map_node_childrenAt]
    rfl
  rw [bodyAt?, body?, ← map_node_childAt?, ← hnamed,
    ← map_node_find? fun c => c.kind = .body]
  cases n.childAt? .body <;> rfl

theorem map_node_unclaimed (fields : List Field) (es : List Located) :
    (Located.unclaimed fields es).map Located.node =
      unclaimed fields (es.map Located.node) := by
  induction es generalizing fields with
  | nil => rfl
  | cons e es ih =>
      rw [Located.unclaimed, List.map_cons, unclaimed]
      cases e.node.field with
      | none => simp only [List.map_cons, ih]
      | some f =>
          by_cases hf : f ∈ fields
          · simp only [hf, if_true, ih]
          · simp only [hf, if_false, List.map_cons, ih]

theorem map_node_statementsAt (n : Node) : n.statementsAt.map Located.node = n.statements := by
  rw [statementsAt, statements, ← map_node_bodyAt?]
  split
  · exact map_node_codeAt n
  · cases n.bodyAt? with
    | none =>
        rw [Option.map_none, map_node_filter isCode, map_node_unclaimed, map_node_childrenAt]
    | some b =>
        rw [Option.map_some]
        dsimp only
        split
        · exact map_node_codeBelow b
        · rfl

/-! ## The listing -/

/-- The node and everything below it, as seen from where its own place begins. -/
def treeAt (e : Located) : List Located :=
  e.node.located.map (.under e.place)

theorem under_under (way way' : List Nat) (e : Located) :
    (e.under way').under way = e.under (way ++ way') := by
  simp only [Located.under, List.append_assoc]

theorem map_under_map (way way' : List Nat) (es : List Located) :
    (es.map (Located.under way')).map (Located.under way) =
      es.map (Located.under (way ++ way')) := by
  rw [List.map_map]
  exact congrArg (List.map · es) (funext (under_under way way'))

theorem treeAt_under (way : List Nat) (e : Located) :
    treeAt (e.under way) = (treeAt e).map (.under way) := by
  rw [treeAt, treeAt, map_under_map]
  rfl

theorem locatedFrom_eq (i : Nat) (cs : List Node) :
    locatedFrom i cs = (childrenFrom i cs).flatMap treeAt := by
  induction cs generalizing i with
  | nil => rw [locatedFrom]; rfl
  | cons c cs ih => rw [locatedFrom, ih]; rfl

theorem located_eq (n : Node) : n.located = ⟨[], n⟩ :: n.childrenAt.flatMap treeAt := by
  cases n
  rw [located, locatedFrom_eq]
  rfl

mutual

/-- The listing of the tree, with places. -/
theorem map_node_located : ∀ n : Node, n.located.map Located.node = n.preorder
  | ⟨_, _, _, _, _, _, _, _, children⟩ => by
      rw [located, preorder, List.map_cons, map_node_locatedFrom 0 children]

theorem map_node_locatedFrom (i : Nat) :
    ∀ cs : List Node, (locatedFrom i cs).map Located.node = preorderList cs
  | [] => by rw [locatedFrom, preorderList]; rfl
  | c :: cs => by
      rw [locatedFrom, preorderList, List.map_append, map_node_under, map_node_located c,
        map_node_locatedFrom (i + 1) cs]

end

theorem place_of_mem_treeAt {i : Nat} {c : Node} {e : Located} (h : e ∈ treeAt ⟨[i], c⟩) :
    ∃ way, e.place = i :: way := by
  obtain ⟨e', -, rfl⟩ := List.mem_map.1 h
  exact ⟨e'.place, rfl⟩

/-- The places below later children come from later indices. -/
theorem place_of_mem_locatedFrom {i : Nat} {cs : List Node} {e : Located}
    (h : e ∈ locatedFrom i cs) : ∃ j way, i ≤ j ∧ e.place = j :: way := by
  induction cs generalizing i with
  | nil =>
      rw [locatedFrom] at h
      cases h
  | cons c cs ih =>
      rw [locatedFrom, List.mem_append] at h
      rcases h with h | h
      · obtain ⟨way, hway⟩ := place_of_mem_treeAt h
        exact ⟨i, way, Nat.le_refl i, hway⟩
      · obtain ⟨j, way, hj, hway⟩ := ih h
        exact ⟨j, way, Nat.le_of_succ_le hj, hway⟩

theorem map_place_under (way : List Nat) (es : List Located) :
    (es.map (.under way)).map Located.place = (es.map Located.place).map (way ++ ·) := by
  rw [List.map_map, List.map_map]
  rfl

mutual

/-- Each place of a tree is listed once. -/
theorem nodup_located : ∀ n : Node, (n.located.map Located.place).Nodup
  | ⟨_, _, _, _, _, _, _, _, children⟩ => by
      rw [located, List.map_cons, List.nodup_cons]
      refine ⟨fun h => ?_, nodup_locatedFrom 0 children⟩
      obtain ⟨e, he, hplace⟩ := List.mem_map.1 h
      obtain ⟨j, way, -, hway⟩ := place_of_mem_locatedFrom he
      rw [hway] at hplace
      cases hplace

theorem nodup_locatedFrom (i : Nat) :
    ∀ cs : List Node, ((locatedFrom i cs).map Located.place).Nodup
  | [] => by
      rw [locatedFrom]
      exact List.nodup_nil
  | c :: cs => by
      rw [locatedFrom, List.map_append, map_place_under, List.nodup_append]
      refine ⟨(nodup_located c).map (List.append_right_injective [i]),
        nodup_locatedFrom (i + 1) cs, ?_⟩
      rintro place hplace place' hplace' rfl
      obtain ⟨way, -, rfl⟩ := List.mem_map.1 hplace
      obtain ⟨e, he, heq⟩ := List.mem_map.1 hplace'
      obtain ⟨j, way', hj, hway⟩ := place_of_mem_locatedFrom he
      rw [hway, List.singleton_append] at heq
      obtain ⟨rfl, -⟩ := List.cons.inj heq
      exact Nat.not_succ_le_self _ hj

end

/-! ## Parts that are spread -/

/-- Do the nodes stand in the order of the listing of `n`, none of them below another? -/
def Spread (n : Node) (es : List Located) : Prop :=
  (es.flatMap treeAt).Sublist n.located

theorem Spread.of_sublist {n : Node} {es fs : List Located} (hes : n.Spread es)
    (h : fs.Sublist es) : n.Spread fs :=
  (h.flatMap treeAt).trans hes

theorem spread_childrenAt (n : Node) : n.Spread n.childrenAt := by
  rw [Spread, located_eq]
  exact List.sublist_cons_self _ _

/-- **What is chosen from spread parts, one part after the other, stands in the order of the
listing.** -/
theorem Spread.sublist {n : Node} {es : List Located} (hes : n.Spread es)
    {chosen : Located → List Located} (h : ∀ e ∈ es, (chosen e).Sublist e.node.located) :
    (es.flatMap fun e => (chosen e).map (.under e.place)).Sublist n.located :=
  (List.Sublist.flatMap_right es fun e he => (h e he).map _).trans hes

theorem Spread.flatMap {n : Node} {es : List Located} (hes : n.Spread es)
    {parts : Located → List Located} (h : ∀ e ∈ es, e.node.Spread (parts e)) :
    n.Spread (es.flatMap fun e => (parts e).map (.under e.place)) := by
  have htrees : (es.flatMap fun e => (parts e).map (.under e.place)).flatMap treeAt =
      es.flatMap fun e => ((parts e).flatMap treeAt).map (.under e.place) := by
    rw [List.flatMap_assoc]
    refine congrArg (List.flatMap · es) (funext fun e => ?_)
    rw [List.flatMap_map, List.map_flatMap]
    exact congrArg (List.flatMap · _) (funext (treeAt_under e.place))
  rw [Spread, htrees]
  exact hes.sublist h

theorem spread_codeAt (n : Node) : n.Spread n.codeAt :=
  n.spread_childrenAt.of_sublist List.filter_sublist

theorem spread_codeBelow {n : Node} {e : Located} (h : n.Spread [e]) : n.Spread (codeBelow e) := by
  have hcode : n.Spread ([e].flatMap fun e => e.node.codeAt.map (.under e.place)) :=
    h.flatMap fun e _ => e.node.spread_codeAt
  rwa [List.flatMap_singleton] at hcode

theorem spread_of_mem_childrenAt {n : Node} {e : Located} (h : e ∈ n.childrenAt) :
    n.Spread [e] :=
  n.spread_childrenAt.of_sublist (List.singleton_sublist.2 h)

theorem spread_argumentsAt (n : Node) : n.Spread n.argumentsAt := by
  rw [argumentsAt]
  split
  · cases h : n.childAt? .arguments with
    | none => exact List.nil_sublist _
    | some e =>
        exact spread_codeBelow (spread_of_mem_childrenAt (List.mem_of_find?_eq_some h))
  · exact List.nil_sublist _

theorem mem_childrenAt_of_bodyAt? {n : Node} {b : Located} (h : n.bodyAt? = some b) :
    b ∈ n.childrenAt := by
  rw [bodyAt?] at h
  cases hchild : n.childAt? .body with
  | some e =>
      rw [hchild] at h
      obtain rfl : e = b := Option.some.inj h
      exact List.mem_of_find?_eq_some hchild
  | none =>
      rw [hchild] at h
      exact List.mem_of_mem_filter (List.mem_of_find?_eq_some h)

theorem unclaimed_sublist (fields : List Field) (es : List Located) :
    (Located.unclaimed fields es).Sublist es := by
  induction es generalizing fields with
  | nil => exact .slnil
  | cons e es ih =>
      rw [Located.unclaimed]
      split
      · exact (ih fields).cons_cons e
      · split
        · exact (ih _).cons e
        · exact (ih fields).cons_cons e

theorem spread_statementsAt (n : Node) : n.Spread n.statementsAt := by
  rw [statementsAt]
  split
  · exact n.spread_codeAt
  · split
    · rename_i b hb
      have hspread := spread_of_mem_childrenAt (mem_childrenAt_of_bodyAt? hb)
      split
      · exact spread_codeBelow hspread
      · exact hspread
    · exact n.spread_childrenAt.of_sublist
        (List.filter_sublist.trans (unclaimed_sublist _ _))

/-! ## Trees in a text -/

/-- Does the tree lie in a text as a parser leaves it?  Every node ends where it starts or later,
every child lies inside its parent, and siblings stand side by side: each starts where the one
before it has ended or later. -/
def LaidOut : Node → Prop :=
  Everywhere fun n => n.startByte ≤ n.endByte ∧
    (∀ c ∈ n.children, n.startByte ≤ c.startByte ∧ c.endByte ≤ n.endByte) ∧
    n.children.Pairwise fun c d => c.endByte ≤ d.startByte

theorem preorderList_eq (cs : List Node) : preorderList cs = cs.flatMap preorder := by
  induction cs with
  | nil => rw [preorderList]; rfl
  | cons c cs ih => rw [preorderList, ih, List.flatMap_cons]

namespace LaidOut

variable {n : Node}

theorem child (h : n.LaidOut) {c : Node} (hc : c ∈ n.children) : c.LaidOut :=
  Everywhere.child h hc

/-- What is below a node starts inside it. -/
theorem startByte_le (h : n.LaidOut) {m : Node} (hm : m ∈ n.preorder) :
    n.startByte ≤ m.startByte ∧ m.startByte ≤ n.endByte := by
  induction hsize : sizeOf n using Nat.strongRecOn generalizing n with
  | ind size ih =>
    subst hsize
    obtain ⟨hn, hinside, -⟩ := h.self
    rw [preorder_eq] at hm
    rcases List.mem_cons.1 hm with rfl | hm
    · exact ⟨Nat.le_refl _, hn⟩
    · obtain ⟨c, hc, hm⟩ := mem_preorderList.1 hm
      obtain ⟨hstart, hend⟩ := hinside c hc
      obtain ⟨hlower, hupper⟩ := ih _ (sizeOf_lt_of_mem_children hc) (h.child hc) hm rfl
      exact ⟨Nat.le_trans hstart hlower, Nat.le_trans hupper hend⟩

/-- **The listing of a tree in a text goes by where the nodes start.** -/
theorem pairwise_startByte (h : n.LaidOut) :
    n.preorder.Pairwise fun m m' => m.startByte ≤ m'.startByte := by
  induction hsize : sizeOf n using Nat.strongRecOn generalizing n with
  | ind size ih =>
    subst hsize
    obtain ⟨-, -, hordered⟩ := h.self
    rw [preorder_eq, List.pairwise_cons]
    constructor
    · exact fun m hm => (h.startByte_le (preorder_eq n ▸ List.mem_cons_of_mem _ hm)).1
    · rw [preorderList_eq, List.pairwise_flatMap]
      refine ⟨fun c hc => ih _ (sizeOf_lt_of_mem_children hc) (h.child hc) rfl, ?_⟩
      refine hordered.imp_of_mem fun {c d} hc hd hcd m hm m' hm' => ?_
      -- What is below the earlier sibling starts before that one ends.
      calc m.startByte ≤ c.endByte := ((h.child hc).startByte_le hm).2
        _ ≤ d.startByte := hcd
        _ ≤ m'.startByte := ((h.child hd).startByte_le hm').1

/-- Siblings that start in order are not enough: the earlier one may reach over the later one, and
hold a node that starts after it. -/
example :
    let leaf (start stop : Nat) : Node :=
      ⟨.identifier, none, start, stop, 0, true, false, false, []⟩
    let wide : Node := { leaf 0 9 with children := [leaf 8 9] }
    { leaf 0 9 with children := [wide, leaf 4 5] }.preorder.map startByte = [0, 0, 8, 4] := by
  decide

end LaidOut

end Node

end RubyDoc.Syntax
