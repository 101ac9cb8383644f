import RubyDoc.Edit.Planning
import RubyDoc.Proofs.Outline.Entry
import RubyDoc.Proofs.Syntax.Located

/-!
# Each definition once, in the order of the text

Definitions are reached by several ways: as statements of a body, as arguments of a call, in classes
nested anywhere in an expression.  Here the definitions of a file are those of nodes that stand in
the order of the tree's listing, each node once (`definitions_collected_once`).  A method is
recorded once and a declaration of attributes once for each argument that names one, and no named
method that stands directly in a walked body is missing.  If the tree lies in its text as a parser
leaves it, the definitions are in the order of the text already.
-/

namespace RubyDoc.Outline

open Syntax

/-! ## The nodes of a tree that are recorded -/

variable (s : Source)

/-- Is the node a method definition with a name? -/
def IsNamedMethod (n : Node) : Prop :=
  (n.kind = .method ∨ n.kind = .singletonMethod) ∧ (methodName? s n).isSome

/-- What a node is recorded for: a named method for itself, a declaration of attributes for each of
its arguments that spells a name. -/
def entriesAt (n : Node) : List Entry :=
  if n.kind = .method ∨ n.kind = .singletonMethod then
    ((methodName? s n).map fun name => ⟨n, name, none⟩).toList
  else
    match directive? s n with
    | some (.attribute access) =>
        (n.arguments.filterMap s.symbolName?).map fun name => ⟨n, name, some access⟩
    | _ => []

/-- Does the node have a body with statements of its own? -/
def opensBody (n : Node) : Bool :=
  isContainer n || n.kind = .singletonClass

/-- Is the statement one of which only the classes and modules nested in it are of interest? -/
def IsExpression (n : Node) : Prop :=
  n.kind ≠ .method ∧ n.kind ≠ .singletonMethod ∧ opensBody n = false ∧ directive? s n = none

/-- The classes and modules nested in an expression, without those inside other ones. -/
inductive Nested : Node → Located → Prop
  | here {n : Node} {e : Located} (he : e ∈ n.codeAt) (hc : isContainer e.node) : Nested n e
  | deeper {n : Node} {e c : Located} (he : e ∈ n.codeAt) (hnot : isContainer e.node = false)
      (h : Nested e.node c) : Nested n (c.under e.place)

/-- The bodies that the walk of a statement comes to. -/
inductive Walks : Node → Located → Prop
  | self {n : Node} (h : opensBody n) : Walks n ⟨[], n⟩
  | inside {n : Node} {e b : Located} (h : opensBody n) (he : e ∈ n.statementsAt)
      (hb : Walks e.node b) : Walks n (b.under e.place)
  | nested {n : Node} {e b : Located} (h : IsExpression s n) (he : Nested n e)
      (hb : Walks e.node b) : Walks n (b.under e.place)

/-- The bodies that the walk of a file comes to. -/
def WalkedBody (root : Node) (b : Located) : Prop :=
  b = ⟨[], root⟩ ∨ ∃ e ∈ root.statementsAt, ∃ c, Walks s e.node c ∧ b = c.under e.place

/-- The named methods that stand directly in a body of `bodies`. -/
def MethodsIn (bodies : Located → Prop) (m : Located) : Prop :=
  ∃ b, bodies b ∧ ∃ e ∈ b.node.statementsAt, IsNamedMethod s e.node ∧ m = e.under b.place

/-- The definitions of a file are those of the nodes `chosen`: these are in the order of the
listing, each of them at a place of its own, and every named method that stands directly in a walked
body is among them. -/
structure Collected (root : Node) (chosen : List Located) : Prop where
  listed : chosen.Sublist root.located
  inPreorder : (chosen.map Located.node).Sublist root.preorder
  once : (chosen.map Located.place).Nodup
  recorded : ∀ e ∈ chosen, entriesAt s e.node ≠ []
  entries : (definitions s root).map Definition.entry = chosen.flatMap fun e => entriesAt s e.node
  complete : ∀ b, WalkedBody s root b → ∀ e ∈ b.node.statementsAt, IsNamedMethod s e.node →
    e.under b.place ∈ chosen

/-! ## Choosing the nodes -/

/-- Some nodes of the tree `n`, in the order of its listing, are recorded for `recorded`, and what
is wanted is among them. -/
def Records (n : Node) (wanted : Located → Prop) (recorded : List Entry) : Prop :=
  ∃ chosen : List Located, chosen.Sublist n.located ∧
    (∀ e ∈ chosen, entriesAt s e.node ≠ []) ∧
    recorded = (chosen.flatMap fun e => entriesAt s e.node) ∧ ∀ m, wanted m → m ∈ chosen

variable {s} {n : Node}

theorem Records.mono {wanted wanted' : Located → Prop} {recorded : List Entry}
    (h : Records s n wanted recorded) (hwanted : ∀ m, wanted' m → wanted m) :
    Records s n wanted' recorded := by
  obtain ⟨chosen, hlisted, hrecorded, hentries, hmem⟩ := h
  exact ⟨chosen, hlisted, hrecorded, hentries, fun m hm => hmem m (hwanted m hm)⟩

theorem records_nil (n : Node) : Records s n (fun _ => False) [] :=
  ⟨[], List.nil_sublist _, by simp, rfl, fun _ => False.elim⟩

/-- A node that is recorded itself, for what it is recorded for. -/
theorem records_self (n : Node) :
    Records s n (fun m => entriesAt s n ≠ [] ∧ m = ⟨[], n⟩) (entriesAt s n) := by
  by_cases hn : entriesAt s n = []
  · rw [hn]
    exact (records_nil n).mono fun _ hm => hm.1 rfl
  · refine ⟨[⟨[], n⟩], ?_, ?_, ?_, ?_⟩
    · rw [Node.located_eq]
      exact (List.nil_sublist _).cons_cons _
    · rintro e he
      obtain rfl := List.mem_singleton.1 he
      exact hn
    · rw [List.flatMap_singleton]
    · rintro m ⟨-, rfl⟩
      exact List.mem_singleton_self _

/-- What is recorded in spread parts of a tree, one part after the other, is recorded in it. -/
theorem Records.flatMap {es : List Located} (hes : n.Spread es)
    {wanted : Located → Located → Prop} {recorded : Located → List Entry}
    (h : ∀ e ∈ es, Records s e.node (wanted e) (recorded e)) :
    Records s n (fun m => ∃ e ∈ es, ∃ c, wanted e c ∧ m = c.under e.place)
      (es.flatMap recorded) := by
  choose! chosen hlisted hrecorded hentries hmem using h
  refine ⟨es.flatMap fun e => (chosen e).map (.under e.place), hes.sublist hlisted, ?_, ?_, ?_⟩
  · intro m hm
    obtain ⟨e, he, hm⟩ := List.mem_flatMap.1 hm
    obtain ⟨c, hc, rfl⟩ := List.mem_map.1 hm
    exact hrecorded e he c hc
  · rw [List.flatMap_assoc]
    refine List.flatMap_congr fun e he => ?_
    rw [hentries e he, List.flatMap_map]
    rfl
  · rintro m ⟨e, he, c, hc, rfl⟩
    exact List.mem_flatMap.2 ⟨e, he, List.mem_map_of_mem (hmem e he c hc)⟩

/-! ## Calls -/

/-- What an argument is recorded for, if it is recorded. -/
def Argument.entries : Argument → List Entry
  | method node name | singletonMethod node name => [⟨node, name, none⟩]
  | attributes node access names => names.map fun name => ⟨node, name, some access⟩
  | named _ => []

theorem isNamedMethod_iff : IsNamedMethod s n ↔
    (n.kind = .method ∨ n.kind = .singletonMethod) ∧ entriesAt s n ≠ [] := by
  refine and_congr_right fun hn => ?_
  rw [entriesAt, if_pos hn]
  cases methodName? s n <;> simp

theorem entriesAt_of_attribute {access : Access} (h : directive? s n = some (.attribute access)) :
    entriesAt s n = (attributeNames s n).map fun name => ⟨n, name, some access⟩ := by
  have hkind := kind_of_attribute s h
  rw [entriesAt, if_neg (by simp [hkind]), h]
  rfl

/-- An argument is recorded for what it says or not at all. -/
theorem entries_argument? {a : Argument} (h : argument? s n = some a) :
    a.entries = entriesAt s n ∨ a.entries = [] := by
  by_cases hmethod : n.kind = .method
  · rw [argument?_method s hmethod] at h
    obtain ⟨name, hname, rfl⟩ := Option.map_eq_some_iff.1 h
    exact Or.inl (by rw [entriesAt, if_pos (Or.inl hmethod), hname]; rfl)
  by_cases hsingleton : n.kind = .singletonMethod
  · rw [argument?_singletonMethod s hsingleton] at h
    obtain ⟨name, hname, rfl⟩ := Option.map_eq_some_iff.1 h
    exact Or.inl (by rw [entriesAt, if_pos (Or.inr hsingleton), hname]; rfl)
  by_cases hattribute : ∃ access, directive? s n = some (.attribute access)
  · obtain ⟨access, hattribute⟩ := hattribute
    rw [argument?_attribute s hattribute] at h
    obtain rfl := Option.some.inj h
    exact Or.inl (entriesAt_of_attribute hattribute).symm
  · rw [argument?_other s hmethod hsingleton fun access h => hattribute ⟨access, h⟩] at h
    obtain ⟨name, -, rfl⟩ := Option.map_eq_some_iff.1 h
    exact Or.inr rfl

theorem flatMap_entries_declare (names : List Text) (v : Visibility) :
    (names.map fun name => Deed.declare name v).flatMap Deed.entries = [] := by
  rw [List.flatMap_map, List.flatMap_eq_nil_iff]
  exact fun _ _ => rfl

theorem entries_visibilityDeeds (v : Visibility) (a : Argument) :
    (a.visibilityDeeds v).flatMap Deed.entries = a.entries := by
  cases a with
  | attributes node access names =>
      rw [Argument.visibilityDeeds, List.flatMap_append, flatMap_entries_declare,
        List.nil_append, List.flatMap_singleton]
      rfl
  | _ => rfl

theorem entries_functionDeeds (a : Argument) :
    a.functionDeeds.flatMap Deed.entries = a.entries ∨
      a.functionDeeds.flatMap Deed.entries = [] := by
  cases a with
  | method => exact Or.inl rfl
  | _ => exact Or.inr rfl

theorem entries_classVisibilityDeeds (v : Visibility) (a : Argument) :
    (a.classVisibilityDeeds v).flatMap Deed.entries = a.entries ∨
      (a.classVisibilityDeeds v).flatMap Deed.entries = [] := by
  cases a with
  | singletonMethod => exact Or.inl rfl
  | _ => exact Or.inr rfl

/-- The arguments of a call that does something with each. -/
theorem records_arguments {deeds : Argument → List Deed}
    (hdeeds : ∀ a, (deeds a).flatMap Deed.entries = a.entries ∨
      (deeds a).flatMap Deed.entries = []) :
    Records s n (fun _ => False)
      (((n.arguments.filterMap (argument? s)).flatMap deeds).flatMap Deed.entries) := by
  have hparts : ∀ e ∈ n.argumentsAt, Records s e.node (fun _ => False)
      ((argument? s e.node).toList.flatMap fun a => (deeds a).flatMap Deed.entries) := by
    intro e _
    cases ha : argument? s e.node with
    | none => exact records_nil e.node
    | some a =>
        rw [Option.toList_some, List.flatMap_singleton]
        have hself : Records s e.node (fun _ => False) a.entries := by
          rcases entries_argument? ha with h | h
          · rw [h]
            exact (records_self e.node).mono fun _ => False.elim
          · rw [h]
            exact records_nil e.node
        rcases hdeeds a with h | h
        · rwa [h]
        · rw [h]
          exact records_nil e.node
  -- What is recorded for the call is recorded for one argument after the other.
  have hrecorded : ((n.arguments.filterMap (argument? s)).flatMap deeds).flatMap Deed.entries =
      n.argumentsAt.flatMap fun e =>
        (argument? s e.node).toList.flatMap fun a => (deeds a).flatMap Deed.entries := by
    rw [List.flatMap_assoc, ← Node.map_node_argumentsAt, List.filterMap_map]
    induction n.argumentsAt with
    | nil => rfl
    | cons e es ih =>
        rw [List.flatMap_cons, ← ih, List.filterMap_cons]
        cases h : argument? s e.node <;> simp [h]
  rw [hrecorded]
  exact (Records.flatMap n.spread_argumentsAt hparts).mono fun _ => False.elim

theorem records_directive {d : Directive} (h : directive? s n = some d) :
    Records s n (fun _ => False) (entriesOf (items s n)) := by
  rw [items_directive s h, entriesOf_eq, List.flatMap_singleton]
  rcases d with v | _ | v | access
  · rw [directiveItem]
    split
    · exact records_nil n
    · exact records_arguments fun a => Or.inl (entries_visibilityDeeds v a)
  · rw [directiveItem]
    split
    · exact records_nil n
    · exact records_arguments entries_functionDeeds
  · exact records_arguments (entries_classVisibilityDeeds v)
  · have hentries : (directiveItem s n (.attribute access)).entries = entriesAt s n := by
      have hleaf : (directiveItem s n (.attribute access)).IsLeaf := trivial
      rw [hleaf.entries_eq, entriesAt_of_attribute h]
      exact List.flatMap_singleton _ _
    rw [hentries]
    exact (records_self n).mono fun _ => False.elim

/-! ## Statements and bodies -/

variable (s) in
/-- What is wanted of a statement: itself if it is a named method, and the named methods that stand
directly in the bodies its walk comes to. -/
def Wanted (n : Node) (m : Located) : Prop :=
  (IsNamedMethod s n ∧ m = ⟨[], n⟩) ∨ MethodsIn s (Walks s n) m

variable (s) in
/-- What is wanted of an expression: the named methods in the bodies that the walk of a class or
module nested in it comes to. -/
def NestedMethods (n : Node) : Located → Prop :=
  MethodsIn s fun b => ∃ e, Nested n e ∧ ∃ c, Walks s e.node c ∧ b = c.under e.place

/-- The statements of a body, one after the other. -/
theorem records_body
    (h : ∀ c ∈ n.statements, Records s c (Wanted s c) (entriesOf (items s c))) :
    Records s n (MethodsIn s (WalkedBody s n)) (entriesOf (ofRoot s n)) := by
  have hparts : ∀ e ∈ n.statementsAt,
      Records s e.node (Wanted s e.node) ((items s e.node).flatMap Item.entries) := by
    intro e he
    rw [← entriesOf_eq]
    exact h e.node (n.map_node_statementsAt ▸ List.mem_map_of_mem he)
  rw [ofRoot_eq_flatMap, entriesOf_eq, List.flatMap_assoc, ← Node.map_node_statementsAt,
    List.flatMap_map]
  refine (Records.flatMap n.spread_statementsAt hparts).mono ?_
  rintro m ⟨b, rfl | ⟨e', he', c, hc, rfl⟩, e, he, hnamed, rfl⟩
  · refine ⟨e, he, ⟨[], e.node⟩, Or.inl ⟨hnamed, rfl⟩, ?_⟩
    simp [Located.under]
  · exact ⟨e', he', e.under c.place, Or.inr ⟨c, hc, e, he, hnamed, rfl⟩,
      (Node.under_under e'.place c.place e).symm⟩

/-- The classes and modules nested in an expression, one after the other. -/
theorem records_nested
    (h : ∀ c ∈ n.code, Records s c (Wanted s c) (entriesOf (items s c)) ∧
      Records s c (NestedMethods s c) (entriesOf (nestedItems s c.children))) :
    Records s n (NestedMethods s n) (entriesOf (nestedItems s n.children)) := by
  have hparts : ∀ e ∈ n.codeAt, Records s e.node
      (fun m => if isContainer e.node then Wanted s e.node m else NestedMethods s e.node m)
      ((if isContainer e.node then items s e.node
        else nestedItems s e.node.children).flatMap Item.entries) := by
    intro e he
    obtain ⟨hitems, hbelow⟩ := h e.node (n.map_node_codeAt ▸ List.mem_map_of_mem he)
    rw [← entriesOf_eq]
    split
    · exact hitems
    · exact hbelow
  rw [nestedItems_eq, ← Node.code, entriesOf_eq, List.flatMap_assoc, ← Node.map_node_codeAt,
    List.flatMap_map]
  refine (Records.flatMap n.spread_codeAt hparts).mono ?_
  rintro m ⟨b, ⟨e, hnested, c, hc, rfl⟩, d, hd, hnamed, rfl⟩
  cases hnested with
  | here he hcontainer =>
      refine ⟨e, he, d.under c.place, ?_, (Node.under_under e.place c.place d).symm⟩
      rw [if_pos hcontainer]
      exact Or.inr ⟨c, hc, d, hd, hnamed, rfl⟩
  | @deeper _ e e' he hnot hnested =>
      refine ⟨e, he, d.under (e'.place ++ c.place), ?_, ?_⟩
      · rw [if_neg (by simp [hnot])]
        exact ⟨c.under e'.place, ⟨e', hnested, c, hc, rfl⟩, d, hd, hnamed, rfl⟩
      · rw [Node.under_under, ← List.append_assoc]
        rfl

theorem not_isNamedMethod (hmethod : n.kind ≠ .method) (hsingleton : n.kind ≠ .singletonMethod) :
    ¬ IsNamedMethod s n :=
  fun h => h.1.elim hmethod hsingleton

theorem isExpression_of_walks {b : Located} (hbody : opensBody n = false) (h : Walks s n b) :
    IsExpression s n := by
  cases h with
  | nested h => exact h
  | self h | inside h => simp [hbody] at h

theorem walkedBody_of_walks {b : Located} (hbody : opensBody n) (h : Walks s n b) :
    WalkedBody s n b := by
  cases h with
  | self => exact Or.inl rfl
  | inside _ he hb => exact Or.inr ⟨_, he, _, hb, rfl⟩
  | nested h => simp [h.2.2.1] at hbody

theorem entriesOf_items_method (h : n.kind = .method ∨ n.kind = .singletonMethod) :
    entriesOf (items s n) = entriesAt s n := by
  rw [entriesAt, if_pos h]
  rcases h with h | h
  · rw [items_method s h]
    cases methodName? s n with
    | none => rfl
    | some name =>
        rw [entriesOf_eq, Option.map_some, Option.toList_some, List.flatMap_singleton]
        rfl
  · rw [items_singletonMethod s h]
    cases methodName? s n with
    | none => rfl
    | some name =>
        rw [entriesOf_eq, Option.map_some, Option.toList_some, List.flatMap_singleton]
        rfl

theorem entriesOf_items_body (h : opensBody n) :
    entriesOf (items s n) = entriesOf (ofRoot s n) := by
  rw [opensBody, Bool.or_eq_true, decide_eq_true_eq] at h
  rcases h with h | h
  · rw [items_container s h, entriesOf_eq, List.flatMap_singleton, Item.entries]
  · rw [items_singletonClass s h, entriesOf_eq, List.flatMap_singleton, Item.entries]

/-- A statement, from what its body and what is nested in it are recorded for. -/
theorem records_statement
    (hbody : Records s n (MethodsIn s (WalkedBody s n)) (entriesOf (ofRoot s n)))
    (hnested : Records s n (NestedMethods s n) (entriesOf (nestedItems s n.children))) :
    Records s n (Wanted s n) (entriesOf (items s n)) := by
  -- A statement is recorded itself if it is a method; otherwise what it opens or nests is.
  by_cases hmethod : n.kind = .method ∨ n.kind = .singletonMethod
  · have hopens : opensBody n = false := by
      rcases hmethod with h | h <;> simp [opensBody, isContainer, h]
    rw [entriesOf_items_method hmethod]
    refine (records_self n).mono ?_
    rintro m (⟨hnamed, rfl⟩ | ⟨b, hb, -⟩)
    · exact ⟨(isNamedMethod_iff.1 hnamed).2, rfl⟩
    · obtain ⟨hnot, hnot', -⟩ := isExpression_of_walks hopens hb
      exact absurd hmethod (not_or.2 ⟨hnot, hnot'⟩)
  obtain ⟨hmethod, hsingleton⟩ := not_or.1 hmethod
  have hnamed : ¬ IsNamedMethod s n := not_isNamedMethod hmethod hsingleton
  by_cases hopens : opensBody n
  · rw [entriesOf_items_body hopens]
    refine hbody.mono ?_
    rintro m (⟨h, -⟩ | ⟨b, hb, hm⟩)
    · exact absurd h hnamed
    · exact ⟨b, walkedBody_of_walks hopens hb, hm⟩
  have hopens : opensBody n = false := by simpa using hopens
  cases hd : directive? s n with
  | some d =>
      refine (records_directive hd).mono ?_
      rintro m (⟨h, -⟩ | ⟨b, hb, -⟩)
      · exact hnamed h
      · have hnone := (isExpression_of_walks hopens hb).2.2.2
        rw [hd] at hnone
        cases hnone
  | none =>
      have hother : isContainer n = false ∧ n.kind ≠ .singletonClass := by
        simpa [opensBody] using hopens
      rw [items_other s hmethod hsingleton hother.2 hother.1 hd]
      refine hnested.mono ?_
      rintro m (⟨h, -⟩ | ⟨b, hb, hm⟩)
      · exact absurd h hnamed
      · refine ⟨b, ?_, hm⟩
        cases hb with
        | nested _ he hb => exact ⟨_, he, _, hb, rfl⟩
        | self h | inside h => simp [hopens] at h

/-- Every statement is recorded as it should be, and so is what is nested in it. -/
theorem records_items (n : Node) : Records s n (Wanted s n) (entriesOf (items s n)) ∧
    Records s n (NestedMethods s n) (entriesOf (nestedItems s n.children)) := by
  induction n using Node.statement_induction with
  | step n ihcode ihstatements =>
    have hnested := records_nested ihcode
    have hbody := records_body fun c hc => (ihstatements c hc).1
    exact ⟨records_statement hbody hnested, hnested⟩

/-! ## Files -/

theorem exists_collected (root : Node) : ∃ chosen, Collected s root chosen := by
  obtain ⟨chosen, hlisted, hrecorded, hentries, hmem⟩ :=
    records_body (s := s) (n := root) fun c _ => (records_items c).1
  refine ⟨chosen, hlisted, ?_, ?_, hrecorded, ?_, ?_⟩
  · exact root.map_node_located ▸ hlisted.map Located.node
  · exact root.nodup_located.sublist (hlisted.map Located.place)
  · rw [definitions, map_entry_definitionsOf, hentries]
  · exact fun b hb e he hnamed => hmem _ ⟨b, hb, e, he, hnamed, rfl⟩

theorem node_of_mem_entriesAt {x : Entry} (h : x ∈ entriesAt s n) : x.node = n := by
  rw [entriesAt] at h
  split at h
  · obtain ⟨name, -, rfl⟩ := Option.map_eq_some_iff.1 (Option.mem_toList.1 h)
    rfl
  · split at h
    · obtain ⟨name, -, rfl⟩ := List.mem_map.1 h
      rfl
    · cases h

/-- In a tree that lies in its text as a parser leaves it, the definitions are found in the order in
which they start. -/
theorem Collected.pairwise_startByte {root : Node} {chosen : List Located}
    (h : Collected s root chosen) (hroot : root.LaidOut) :
    (definitions s root).Pairwise fun d d' => d.node.startByte ≤ d'.node.startByte := by
  have hlisting := hroot.pairwise_startByte
  rw [← root.map_node_located, List.pairwise_map] at hlisting
  have hentries : ((definitions s root).map Definition.entry).Pairwise
      fun x y => x.node.startByte ≤ y.node.startByte := by
    rw [h.entries, List.pairwise_flatMap]
    constructor
    · -- What one node is recorded for starts where the node does.
      refine fun e _ => List.pairwise_of_forall_mem_list fun x hx y hy => ?_
      exact Nat.le_of_eq (congrArg Node.startByte
        ((node_of_mem_entriesAt hx).trans (node_of_mem_entriesAt hy).symm))
    · refine (hlisting.sublist h.listed).imp fun hle x hx y hy => ?_
      rwa [node_of_mem_entriesAt hx, node_of_mem_entriesAt hy]
  rwa [List.pairwise_map] at hentries

/-- **Each definition once, in the order of the text.**  The definitions of a file are those of
nodes in the order of the tree's listing, each node at a place of its own; a method is recorded
once, a declaration of attributes once for each argument that spells a name, in the order of the
arguments, and no named method standing directly in a walked body is missing.  If the nodes lie in
the text as a parser leaves them, the definitions go by where they start, so bringing them into the
order of the text changes nothing.  This asks for more than siblings that start one after the
other: they must not overlap, or what lies inside of one could start behind the next. -/
theorem definitions_collected_once (s : Source) (root : Node) :
    (∃ chosen, Collected s root chosen) ∧
      (root.LaidOut →
        (definitions s root).Pairwise (fun d d' => d.node.startByte ≤ d'.node.startByte) ∧
          Edit.inTextOrder (definitions s root) = definitions s root) := by
  obtain ⟨chosen, hchosen⟩ := exists_collected (s := s) root
  refine ⟨⟨chosen, hchosen⟩, fun hroot => ?_⟩
  have hpairwise := hchosen.pairwise_startByte hroot
  exact ⟨hpairwise, List.mergeSort_of_pairwise (hpairwise.imp fun hle => by simpa using hle)⟩

/-- A class with two attributes and a method that is an argument of a keyword. -/
def shop : Source :=
  .ofText "class A\n  attr_reader :x, :y\n  private def go\n  end\nend\n"

/-- The attributes. -/
def shopReaders : Node :=
  ⟨.call, none, 10, 28, 1, true, false, false,
    [⟨.identifier, some .method, 10, 21, 1, true, false, false, []⟩,
      ⟨.argumentList, some .arguments, 22, 28, 1, true, false, false,
        [⟨.literal .simpleSymbol, none, 22, 24, 1, true, false, false, []⟩,
          ⟨.literal .simpleSymbol, none, 26, 28, 1, true, false, false, []⟩]⟩]⟩

/-- The method. -/
def shopGo : Node :=
  ⟨.method, none, 39, 51, 2, true, false, false,
    [⟨.identifier, some .name, 43, 45, 2, true, false, false, []⟩]⟩

/-- The keyword with the method. -/
def shopKeyword : Node :=
  ⟨.call, none, 31, 51, 2, true, false, false,
    [⟨.identifier, some .method, 31, 38, 2, true, false, false, []⟩,
      ⟨.argumentList, some .arguments, 39, 51, 2, true, false, false, [shopGo]⟩]⟩

/-- The class. -/
def shopClass : Node :=
  ⟨.classDef, none, 0, 55, 0, true, false, false,
    [⟨.constant, some .name, 6, 7, 0, true, false, false, []⟩,
      ⟨.body, some .body, 10, 51, 1, true, false, false, [shopReaders, shopKeyword]⟩]⟩

/-- The file. -/
def shopRoot : Node :=
  ⟨.program, none, 0, 56, 0, true, false, false, [shopClass]⟩

/-- The attributes come before the method, each once, and nothing is to be moved. -/
theorem definitions_collected_once_shop :
    shopRoot.LaidOut ∧
      (definitions shop shopRoot).map Definition.name = ["x", "y", "go"].map Text.ofString ∧
      Edit.inTextOrder (definitions shop shopRoot) = definitions shop shopRoot := by
  have hlaid : shopRoot.LaidOut := by
    unfold Node.LaidOut Node.Everywhere
    decide
  have hreaders : items shop shopReaders =
      [.attributes shopReaders .read (["x", "y"].map Text.ofString)] := by
    have hword : directive? shop shopReaders = some (.attribute .read) := by decide
    have hnames : attributeNames shop shopReaders = ["x", "y"].map Text.ofString := by decide
    rw [items_directive _ hword, directiveItem, hnames]
  have hkeyword : items shop shopKeyword =
      [.visibilityOf .priv [.method shopGo (Text.ofString "go")]] := by
    have hword : directive? shop shopKeyword = some (.visibility .priv) := by decide
    have hname : methodName? shop shopGo = some (Text.ofString "go") := by decide
    have harguments : shopKeyword.arguments = [shopGo] := rfl
    have hargument : argument? shop shopGo = some (.method shopGo (Text.ofString "go")) := by
      rw [argument?_method shop rfl, hname]
      rfl
    rw [items_directive _ hword, directiveItem, harguments]
    simp [hargument]
  have hclass : items shop shopClass =
      [.container (Text.ofString "A") (items shop shopReaders ++ items shop shopKeyword)] := by
    have hsegment : containerSegment shop shopClass = Text.ofString "A" := by decide
    have hstatements : shopClass.statements = [shopReaders, shopKeyword] := rfl
    rw [items_container _ rfl, hsegment, ofRoot_eq_flatMap, hstatements]
    simp
  refine ⟨hlaid, ?_, ((definitions_collected_once shop shopRoot).2 hlaid).2⟩
  have hroot : shopRoot.statements = [shopClass] := rfl
  rw [definitions, ofRoot_eq_flatMap, hroot, List.flatMap_singleton, hclass, hreaders, hkeyword]
  decide

end RubyDoc.Outline
