import RubyDoc.Proofs.Outline.Apart

/-!
# The methods of an outline

An outline is made of syntax alone, so every method in it is the `def` that defines it, at any depth
(`methodsAreDefs_ofRoot`).  The same holds of the methods that the deeds of a statement define
(`kind_of_method_mem_deedsOf`).
-/

namespace RubyDoc.Outline

open Syntax

/-- Is the method that an argument defines, if any, a plain definition? -/
def Argument.MethodIsDef : Argument → Prop
  | method node _ => node.kind = .method
  | singletonMethod _ _ | attributes _ _ _ | named _ => True

mutual

/-- Are the methods that an item defines plain definitions? -/
def Item.MethodsAreDefs : Item → Prop
  | .method node _ => node.kind = .method
  | .visibilityOf _ arguments | .moduleFunctionsOf arguments | .classVisibilityOf _ arguments =>
      ∀ a ∈ arguments, a.MethodIsDef
  | .singletonClass _ inner | .container _ inner => MethodsAreDefs inner
  | .singletonMethod _ _ | .attributes _ _ _ | .visibilityFromHere _
  | .moduleFunctionsFromHere => True

/-- Are the methods that an outline defines plain definitions? -/
def MethodsAreDefs : List Item → Prop
  | [] => True
  | item :: rest => item.MethodsAreDefs ∧ MethodsAreDefs rest

end

theorem methodsAreDefs_iff {outline : List Item} :
    MethodsAreDefs outline ↔ ∀ item ∈ outline, item.MethodsAreDefs := by
  induction outline with
  | nil => simp [MethodsAreDefs]
  | cons item rest ih => rw [MethodsAreDefs, ih, List.forall_mem_cons]

theorem methodsAreDefs_flatMap {α : Type} {f : α → List Item} {l : List α} :
    MethodsAreDefs (l.flatMap f) ↔ ∀ a ∈ l, MethodsAreDefs (f a) := by
  simp only [methodsAreDefs_iff, List.mem_flatMap]
  exact ⟨fun h a ha item hitem => h item ⟨a, ha, hitem⟩,
    fun h item ⟨a, ha, hitem⟩ => h a ha item hitem⟩

variable (s : Source)

theorem methodIsDef_of_argument? {n : Node} {a : Argument} (h : argument? s n = some a) :
    a.MethodIsDef := by
  by_cases hmethod : n.kind = .method
  · rw [argument?_method s hmethod, Option.map_eq_some_iff] at h
    obtain ⟨_, -, rfl⟩ := h
    exact hmethod
  by_cases hsingleton : n.kind = .singletonMethod
  · rw [argument?_singletonMethod s hsingleton, Option.map_eq_some_iff] at h
    obtain ⟨_, -, rfl⟩ := h
    trivial
  by_cases hattribute : ∃ access, directive? s n = some (.attribute access)
  · obtain ⟨access, haccess⟩ := hattribute
    rw [argument?_attribute s haccess] at h
    cases h
    trivial
  · rw [argument?_other s hmethod hsingleton (not_exists.1 hattribute),
      Option.map_eq_some_iff] at h
    obtain ⟨_, -, rfl⟩ := h
    trivial

theorem methodsAreDefs_directiveItem (n : Node) (d : Directive) :
    (directiveItem s n d).MethodsAreDefs := by
  have harguments : ∀ a ∈ n.arguments.filterMap (argument? s), a.MethodIsDef := fun a ha => by
    obtain ⟨c, -, hc⟩ := List.mem_filterMap.1 ha
    exact methodIsDef_of_argument? s hc
  rcases d with v | _ | v | access
  · rw [directiveItem]
    split
    · trivial
    · rwa [Item.MethodsAreDefs]
  · rw [directiveItem]
    split
    · trivial
    · rwa [Item.MethodsAreDefs]
  · rw [directiveItem]
    rwa [Item.MethodsAreDefs]
  · trivial

/-- The outline of a statement, from what its body and what is nested in it are. -/
theorem methodsAreDefs_items {n : Node} (hbody : MethodsAreDefs (ofRoot s n))
    (hnested : MethodsAreDefs (nestedItems s n.children)) : MethodsAreDefs (items s n) := by
  by_cases hmethod : n.kind = .method
  · rw [items_method s hmethod]
    cases methodName? s n with
    | none => trivial
    | some name => exact ⟨hmethod, trivial⟩
  by_cases hsingleton : n.kind = .singletonMethod
  · rw [items_singletonMethod s hsingleton]
    cases methodName? s n with
    | none => trivial
    | some name => exact ⟨trivial, trivial⟩
  by_cases hclass : n.kind = .singletonClass
  · rw [items_singletonClass s hclass]
    exact ⟨hbody, trivial⟩
  by_cases hcontainer : isContainer n
  · rw [items_container s hcontainer]
    exact ⟨hbody, trivial⟩
  cases hd : directive? s n with
  | some d =>
      rw [items_directive s hd]
      exact ⟨methodsAreDefs_directiveItem s n d, trivial⟩
  | none =>
      rw [items_other s hmethod hsingleton hclass (by simpa using hcontainer) hd]
      exact hnested

/-- The methods of a statement are plain definitions, and so are those nested in it. -/
theorem methodsAreDefs_statement (n : Node) :
    MethodsAreDefs (items s n) ∧ MethodsAreDefs (nestedItems s n.children) := by
  induction n using Node.statement_induction with
  | step n ihcode ihstatements =>
    have hnested : MethodsAreDefs (nestedItems s n.children) := by
      rw [nestedItems_eq, methodsAreDefs_flatMap]
      intro c hc
      obtain ⟨hitems, hbelow⟩ := ihcode c hc
      split
      · exact hitems
      · exact hbelow
    have hbody : MethodsAreDefs (ofRoot s n) := by
      rw [ofRoot_eq_flatMap, methodsAreDefs_flatMap]
      exact fun c hc => (ihstatements c hc).1
    exact ⟨methodsAreDefs_items s hbody hnested, hnested⟩

/-- The methods of a file are plain definitions. -/
theorem methodsAreDefs_ofRoot (n : Node) : MethodsAreDefs (ofRoot s n) := by
  rw [ofRoot_eq_flatMap, methodsAreDefs_flatMap]
  exact fun c _ => (methodsAreDefs_statement s c).1

theorem Item.MethodsAreDefs.kind_of_mem {item : Item} (h : item.MethodsAreDefs) {node : Node}
    {name : Text} (hd : .method node name ∈ item.deeds) : node.kind = .method := by
  cases item with
  | method n m =>
      obtain ⟨rfl, -⟩ := Deed.method.inj (List.mem_singleton.1 hd)
      exact h
  | visibilityOf v arguments =>
      rw [Item.MethodsAreDefs] at h
      obtain ⟨a, ha, hd⟩ := List.mem_flatMap.1 hd
      have hmethod := h a ha
      cases a <;> simp [Argument.visibilityDeeds] at hd
      obtain ⟨rfl, -⟩ := hd
      exact hmethod
  | moduleFunctionsOf arguments =>
      rw [Item.MethodsAreDefs] at h
      obtain ⟨a, ha, hd⟩ := List.mem_flatMap.1 hd
      have hmethod := h a ha
      cases a <;> simp [Argument.functionDeeds] at hd
      obtain ⟨rfl, -⟩ := hd
      exact hmethod
  | classVisibilityOf v arguments =>
      obtain ⟨a, -, hd⟩ := List.mem_flatMap.1 hd
      cases a <;> simp [Argument.classVisibilityDeeds] at hd
  | _ => simp [Item.deeds] at hd

/-- A method that a statement defines is a plain definition. -/
theorem kind_of_method_mem_deedsOf {statement node : Node} {name : Text}
    (h : .method node name ∈ deedsOf s statement) : node.kind = .method := by
  obtain ⟨item, hitem, hd⟩ := List.mem_flatMap.1 h
  exact (methodsAreDefs_iff.1 (methodsAreDefs_statement s statement).1 item hitem).kind_of_mem hd

end RubyDoc.Outline
