import Mathlib.Logic.Relation
import RubyDoc.Analysis.Raised
import RubyDoc.Proofs.Syntax.Preorder

/-!
# The search for exceptions

The search visits a node before the nodes that are searched below it, with one exception: the body
of a rescue modifier is searched first and its handler last, since the error that the modifier
handles is raised in between.  Each node that is visited mentions the exceptions that it names
itself, and nothing else is mentioned (`raisedEvents_eq_flatMap`).  So an exception is found if and
only if some node that the search reaches names it (`mem_raisedTypes`).
-/

namespace RubyDoc.Analysis

open RubyDoc.Syntax Node

/-- The exceptions that a node names itself. -/
def ownErrors (s : Source) (n : Node) : List Text :=
  match n.kind with
  | .rescue => handledErrors s n
  | .rescueModifier => [defaultError]
  | .call | .identifier => (raisedBy? s n).toList
  | _ => []

/-- Does the child fill the field for the word that names what the node calls or defines? -/
def isWordOf (n c : Node) : Bool :=
  match n.kind with
  | .call => c.field = some .method
  | .method | .singletonMethod => c.field = some .name
  | _ => false

/-- The named children without the first that is the word of the node. -/
def searchedChildren (n : Node) : List Node :=
  (n.children.eraseP (isWordOf n)).filter isNamed

theorem searchedChildren_of_forall_not {n : Node} (h : ∀ c, isWordOf n c = false) :
    searchedChildren n = n.namedChildren := by
  rw [searchedChildren, List.eraseP_of_forall_not fun c _ => by simp [h c], namedChildren]

/-- What is searched before the node itself counts: the body of a rescue modifier. -/
def searchedBefore (n : Node) : List Node :=
  if n.kind = .rescueModifier then (n.child? .body).toList else []

/-- What is searched after the node itself: the handler of a rescue modifier, or else the named
children without the word. -/
def searchedAfter (n : Node) : List Node :=
  if n.kind = .rescueModifier then (n.child? .handler).toList else searchedChildren n

section Below

variable {n c : Node}

theorem mem_children_of_searchedChildren (h : c ∈ searchedChildren n) : c ∈ n.children :=
  List.mem_of_mem_eraseP (List.mem_of_mem_filter h)

theorem mem_children_of_searchedBefore (h : c ∈ searchedBefore n) : c ∈ n.children := by
  rw [searchedBefore] at h
  split at h
  · exact mem_children_of_child? (Option.mem_toList.1 h)
  · cases h

theorem mem_children_of_searchedAfter (h : c ∈ searchedAfter n) : c ∈ n.children := by
  rw [searchedAfter] at h
  split at h
  · exact mem_children_of_child? (Option.mem_toList.1 h)
  · exact mem_children_of_searchedChildren h

end Below

/-- The nodes that the search visits, in the order in which they count. -/
def visited (n : Node) : List Node :=
  ((searchedBefore n).attach.flatMap fun c => visited c.1) ++
    n :: (searchedAfter n).attach.flatMap fun c => visited c.1
termination_by n
decreasing_by
  · exact sizeOf_lt_of_mem_children (mem_children_of_searchedBefore c.2)
  · exact sizeOf_lt_of_mem_children (mem_children_of_searchedAfter c.2)

theorem visited_eq (n : Node) :
    visited n = (searchedBefore n).flatMap visited ++ n :: (searchedAfter n).flatMap visited := by
  rw [visited]
  simp only [List.flatMap_def, List.attach_map_val]

/-- The search of the first node comes to the second. -/
def Reaches : Node → Node → Prop :=
  Relation.ReflTransGen fun n c => c ∈ searchedBefore n ++ searchedAfter n

/-! ## Mentions along the search -/

section Lists

variable (s : Source)

theorem raisedEventsIn_eq (cs : List Node) :
    raisedEventsIn s cs = (cs.filter isNamed).flatMap (raisedEvents s) := by
  induction cs with
  | nil => rw [raisedEventsIn]; rfl
  | cons c cs ih =>
      rw [raisedEventsIn, ih, List.filter_cons]
      split <;> rfl

theorem raisedEventsBut_eq (f : Field) (cs : List Node) :
    raisedEventsBut s f cs =
      ((cs.eraseP fun c => c.field = some f).filter isNamed).flatMap (raisedEvents s) := by
  induction cs with
  | nil => rw [raisedEventsBut]; rfl
  | cons c cs ih =>
      rw [raisedEventsBut]
      split
      · rename_i hc
        rw [List.eraseP_cons_of_pos (by simpa using hc), raisedEventsIn_eq]
      · rename_i hc
        rw [List.eraseP_cons_of_neg (by simpa using hc), ih, List.filter_cons]
        split <;> rfl

theorem raisedEventsOf_eq (f : Field) (cs : List Node) :
    raisedEventsOf s f cs =
      (cs.find? fun c => c.field = some f).toList.flatMap (raisedEvents s) := by
  induction cs with
  | nil => rw [raisedEventsOf]; rfl
  | cons c cs ih =>
      rw [raisedEventsOf, List.find?_cons, ih]
      split <;> simp_all

end Lists

variable (s : Source)

/-- A node mentions what it names itself, between what is mentioned before and after it. -/
theorem raisedEvents_eq (n : Node) :
    raisedEvents s n = (searchedBefore n).flatMap (raisedEvents s) ++
      (ownErrors s n ++ (searchedAfter n).flatMap (raisedEvents s)) := by
  obtain ⟨kind, field, startByte, endByte, row, isNamed, isMissing, hasError, children⟩ := n
  unfold raisedEvents
  simp only [raisedEventsBut_eq, raisedEventsIn_eq, raisedEventsOf_eq]
  cases kind
  case call | method | singletonMethod | rescueModifier => rfl
  all_goals
    rw [searchedAfter, searchedChildren_of_forall_not fun _ => rfl]
    rfl

/-- **What a search finds is what the visited nodes name, node by node.** -/
theorem raisedEvents_eq_flatMap (n : Node) :
    raisedEvents s n = (visited n).flatMap (ownErrors s) := by
  induction n using visited.induct with
  | case1 n hbefore hafter =>
    have hbefore : ∀ c ∈ searchedBefore n, raisedEvents s c = (visited c).flatMap (ownErrors s) :=
      fun c hc => hbefore ⟨c, hc⟩
    have hafter : ∀ c ∈ searchedAfter n, raisedEvents s c = (visited c).flatMap (ownErrors s) :=
      fun c hc => hafter ⟨c, hc⟩
    rw [raisedEvents_eq, visited_eq, List.flatMap_append, List.flatMap_cons, List.flatMap_assoc,
      List.flatMap_assoc, List.flatMap_congr hbefore, List.flatMap_congr hafter]

/-! ## What the search reaches -/

section Reached

variable {n m : Node}

theorem mem_visited_of_reaches (h : Reaches n m) : m ∈ visited n := by
  induction h using Relation.ReflTransGen.head_induction_on with
  | refl =>
      rw [visited_eq]
      exact List.mem_append_right _ List.mem_cons_self
  | @head n c hc _ ih =>
      rw [visited_eq]
      rcases List.mem_append.1 hc with hc | hc
      · exact List.mem_append_left _ (List.mem_flatMap.2 ⟨c, hc, ih⟩)
      · exact List.mem_append_right _ (List.mem_cons_of_mem _ (List.mem_flatMap.2 ⟨c, hc, ih⟩))

theorem reaches_of_mem_visited : ∀ {n : Node}, m ∈ visited n → Reaches n m := by
  intro n
  induction n using visited.induct with
  | case1 n hbefore hafter =>
    intro h
    rw [visited_eq, List.mem_append, List.mem_cons, List.mem_flatMap, List.mem_flatMap] at h
    rcases h with ⟨c, hc, h⟩ | rfl | ⟨c, hc, h⟩
    · exact .head (List.mem_append_left _ hc) (hbefore ⟨c, hc⟩ h)
    · exact .refl
    · exact .head (List.mem_append_right _ hc) (hafter ⟨c, hc⟩ h)

/-- Only what is below a node is searched. -/
theorem Reaches.everywhere (h : Reaches n m) {P : Node → Prop} (hn : n.Everywhere P) :
    m.Everywhere P := by
  induction h with
  | refl => exact hn
  | tail _ hc ih =>
      rcases List.mem_append.1 hc with hc | hc
      · exact ih.child (mem_children_of_searchedBefore hc)
      · exact ih.child (mem_children_of_searchedAfter hc)

theorem mem_raisedEvents {error : Text} :
    error ∈ raisedEvents s n ↔ ∃ m, Reaches n m ∧ error ∈ ownErrors s m := by
  rw [raisedEvents_eq_flatMap, List.mem_flatMap]
  exact exists_congr fun m =>
    and_congr_left fun _ => ⟨reaches_of_mem_visited, mem_visited_of_reaches⟩

/-- **An exception of a method is what some node that the search reaches names.** -/
theorem mem_raisedTypes {error : Text} :
    error ∈ raisedTypes s n ↔ ∃ m, Reaches n m ∧ error ∈ ownErrors s m := by
  rw [raisedTypes, List.mem_eraseDups, mem_raisedEvents]

/-- What is mentioned below a node that is reached is mentioned. -/
theorem raisedEvents_subset (h : Reaches n m) : raisedEvents s m ⊆ raisedEvents s n := by
  intro error herror
  obtain ⟨k, hk, hown⟩ := (mem_raisedEvents s).1 herror
  exact (mem_raisedEvents s).2 ⟨k, Relation.ReflTransGen.trans h hk, hown⟩

end Reached

end RubyDoc.Analysis
