import RubyDoc.Proofs.Outline.Frame
import RubyDoc.Proofs.Outline.Scan

/-!
# What leaves a name alone

A container may be opened many times, also inside itself, and the definitions of one name in it are
found among all others.  `mentionedIn` lists the names that an outline mentions wherever it is in
the container; an outline that does not mention a name there leaves the latest definition of that
name alone (`latestOf_walkItems`) and says nothing about those that follow
(`IsSilent.declared?`).
-/

namespace RubyDoc.Outline

open Syntax Analysis

/-! ## Names mentioned -/

/-- The names of members that a deed mentions. -/
def Deed.names : Deed → List Text
  | method _ name | singletonMethod _ name | declare name _ | function name | promote name
  | setClassVisibility name _ => [name]
  | attributes _ _ names => names
  | fromHere _ | functionsFromHere | singletonClass _ _ | container _ _ => []

mutual

/-- The names that an item in a body of `path` mentions in bodies of the container `C`. -/
def mentionedBy (C : Text) (path : Option Text) : Item → List Text
  | .singletonClass _ inner => mentionedIn C path inner
  | .container segment inner => mentionedIn C (some (joinContainer (path.getD []) segment)) inner
  | item => if containerOf path = C then item.deeds.flatMap Deed.names else []

/-- The names that an outline in a body of `path` mentions in bodies of the container `C`. -/
def mentionedIn (C : Text) (path : Option Text) : List Item → List Text
  | [] => []
  | item :: rest => mentionedBy C path item ++ mentionedIn C path rest

end

variable {C name : Text} {path : Option Text}

theorem mentionedIn_eq_flatMap (outline : List Item) :
    mentionedIn C path outline = outline.flatMap (mentionedBy C path) := by
  induction outline with
  | nil => rw [mentionedIn]; rfl
  | cons item rest ih => rw [mentionedIn, ih, List.flatMap_cons]

theorem mentionedBy_leaf {item : Item} (h : item.IsLeaf) : mentionedBy C path item =
    if containerOf path = C then item.deeds.flatMap Deed.names else [] := by
  cases item <;> first | exact h.elim | rw [mentionedBy] <;> nofun

/-! ## The latest definition of a name -/

/-- Is `d` a definition of `name` in the container `C`? -/
def isNamed (C name : Text) (d : Definition) : Bool :=
  d.container = C && d.name = name

/-- The latest definition of `name` in the container `C`. -/
def latestOf (C name : Text) (found : List Definition) : Option Definition :=
  found.find? (isNamed C name)

theorem latestOf_cons_of_named {d : Definition} (hcontainer : d.container = C)
    (hname : d.name = name) (found : List Definition) : latestOf C name (d :: found) = some d :=
  List.find?_cons_of_pos (by simp [isNamed, hcontainer, hname])

theorem latestOf_cons_of_ne {d : Definition} (h : d.container = C → d.name ≠ name)
    (found : List Definition) : latestOf C name (d :: found) = latestOf C name found :=
  List.find?_cons_of_neg (by simpa [isNamed] using h)

section ModifyFirst

variable {α : Type} {p q : α → Bool} {f : α → α}

/-- Changing elements that are not looked for, and are not afterwards. -/
theorem find?_modifyFirst_of_not (hq : ∀ a, p a → ¬ q a) (hf : ∀ a, q (f a) = q a) (l : List α) :
    (modifyFirst p f l).find? q = l.find? q := by
  induction l with
  | nil => rfl
  | cons a l ih =>
      rw [modifyFirst]
      split
      · rename_i ha
        have hqa := hq a ha
        rw [List.find?_cons_of_neg (by rwa [hf]), List.find?_cons_of_neg hqa]
      · rw [List.find?_cons, List.find?_cons, ih]

/-- Changing one of the elements that are looked for: the first that is found is the only one that
can be another. -/
theorem find?_modifyFirst (hq : ∀ a, p a → q a) (hf : ∀ a, q (f a) = q a) (l : List α) :
    (modifyFirst p f l).find? q = (l.find? q).map fun a => if p a then f a else a := by
  induction l with
  | nil => rfl
  | cons a l ih =>
      rw [modifyFirst]
      by_cases hqa : q a
      · rw [List.find?_cons_of_pos hqa, Option.map_some]
        split
        · rw [List.find?_cons_of_pos (by rwa [hf])]
        · rw [List.find?_cons_of_pos hqa]
      · have hpa : ¬ p a := fun ha => hqa (hq a ha)
        rw [if_neg hpa, List.find?_cons_of_neg hqa, List.find?_cons_of_neg hqa, ih]

end ModifyFirst

theorem isNamed_of_isPromotable {d : Definition} (h : Walk.isPromotable C name d) :
    isNamed C name d := by
  simp only [Walk.isPromotable, Bool.and_eq_true, decide_eq_true_eq] at h
  simp [isNamed, h.1.1.1.2, h.1.2]

theorem isNamed_of_isClassMethod {d : Definition} (h : Walk.isClassMethod C name d) :
    isNamed C name d := by
  simp only [Walk.isClassMethod, Bool.and_eq_true, decide_eq_true_eq] at h
  simp [isNamed, h.1.1.2, h.2]

theorem not_isNamed_of_ne {C' name' : Text} {d : Definition} (h : isNamed C' name' d)
    (hne : C' = C → name' ≠ name) : ¬ isNamed C name d := by
  simp only [isNamed, Bool.and_eq_true, decide_eq_true_eq] at h ⊢
  rintro ⟨hC, hname⟩
  exact hne (h.1.symm.trans hC) (h.2.symm.trans hname)

/-- Making a function of `name` changes the latest definition of it, if that can be made one. -/
theorem latestOf_promote (w : Walk) : latestOf C name (w.promote C name).found =
    (latestOf C name w.found).map fun d =>
      if Walk.isPromotable C name d then Walk.promoted (w.context.copyVisibility name) d else d :=
  find?_modifyFirst (p := Walk.isPromotable C name) (q := isNamed C name)
    (f := Walk.promoted (w.context.copyVisibility name))
    (fun _ => isNamed_of_isPromotable) (fun _ => rfl) w.found

/-! ## The frame of a name -/

/-- A deed that does not mention a name in its container leaves its latest definition alone. -/
theorem latestOf_run {d : Deed} (hd : d.IsLeaf) (h : containerOf path = C → name ∉ d.names)
    (w : Walk) : latestOf C name (d.run path w).found = latestOf C name w.found := by
  cases d with
  | method node m =>
      have hne : containerOf path = C → m ≠ name := fun hC hm => h hC (by simp [Deed.names, hm])
      rw [Deed.run, Walk.addMethod]
      split
      · exact latestOf_cons_of_ne hne _
      · split <;> exact latestOf_cons_of_ne hne _
  | singletonMethod node m =>
      have hne : containerOf path = C → m ≠ name := fun hC hm => h hC (by simp [Deed.names, hm])
      exact latestOf_cons_of_ne hne _
  | attributes node access names =>
      have hne : ∀ m ∈ names, containerOf path = C → m ≠ name := fun m hm hC hname =>
        h hC (hname ▸ hm)
      rw [Deed.run, Walk.addAttributes]
      clear h hd
      induction names generalizing w with
      | nil => rfl
      | cons m names ih =>
          obtain ⟨hm, hnames⟩ := List.forall_mem_cons.1 hne
          rw [List.foldl_cons, ih _ hnames]
          exact latestOf_cons_of_ne hm _
  | promote m =>
      have hne : containerOf path = C → m ≠ name := fun hC hm => h hC (by simp [Deed.names, hm])
      exact find?_modifyFirst_of_not (p := Walk.isPromotable (containerOf path) m)
        (q := isNamed C name) (f := Walk.promoted (w.context.copyVisibility m))
        (fun _ hd => not_isNamed_of_ne (isNamed_of_isPromotable hd) hne) (fun _ => rfl) w.found
  | setClassVisibility m v =>
      have hne : containerOf path = C → m ≠ name := fun hC hm => h hC (by simp [Deed.names, hm])
      exact find?_modifyFirst_of_not (p := Walk.isClassMethod (containerOf path) m)
        (q := isNamed C name) (f := fun d => { d with visibility := v })
        (fun _ hd => not_isNamed_of_ne (isNamed_of_isClassMethod hd) hne) (fun _ => rfl) w.found
  | singletonClass | container => exact hd.elim
  | _ => rfl

theorem latestOf_foldl_run {ds : List Deed} (hds : ∀ d ∈ ds, d.IsLeaf)
    (h : containerOf path = C → ∀ d ∈ ds, name ∉ d.names) (w : Walk) :
    latestOf C name (ds.foldl (Deed.run path) w).found = latestOf C name w.found := by
  induction ds generalizing w with
  | nil => rfl
  | cons d ds ih =>
      obtain ⟨hd, hds⟩ := List.forall_mem_cons.1 hds
      rw [List.foldl_cons, ih hds fun hC => (List.forall_mem_cons.1 (h hC)).2,
        latestOf_run hd fun hC => (List.forall_mem_cons.1 (h hC)).1]

/-- **Frame.**  An outline that mentions a name nowhere in the container leaves the latest
definition of that name there alone. -/
theorem latestOf_walkItems {outline : List Item} (h : name ∉ mentionedIn C path outline)
    (w : Walk) : latestOf C name (walkItems path outline w).found = latestOf C name w.found := by
  induction outline using outline_induction generalizing path w with
  | nil => rw [walkItems]
  | @leaf item rest hleaf ih =>
      rw [mentionedIn, List.mem_append, not_or, mentionedBy_leaf hleaf] at h
      rw [walkItems, ih h.2, walkItem_eq_foldl]
      refine latestOf_foldl_run hleaf.deeds (fun hC d hd hname => h.1 ?_) w
      rw [if_pos hC]
      exact List.mem_flatMap.2 ⟨d, hd, hname⟩
  | @singletonClass onSelf inner rest ihinner ihrest =>
      rw [mentionedIn, List.mem_append, not_or, mentionedBy] at h
      rw [walkItems, ihrest h.2, walkItem]
      exact ihinner h.1 _
  | @container segment inner rest ihinner ihrest =>
      rw [mentionedIn, List.mem_append, not_or, mentionedBy] at h
      rw [walkItems, ihrest h.2, walkItem]
      exact ihinner h.1 _

/-! ## Statements that do not mention a name -/

/-- Does a statement in a body of `path` mention `name` nowhere in the container of that body? -/
def IsSilent (s : Source) (path : Option Text) (name : Text) (statement : Node) : Prop :=
  name ∉ mentionedIn (containerOf path) path (items s statement)

namespace IsSilent

variable {s : Source} {statement : Node}

/-- What a silent statement does by itself does not mention the name. -/
theorem names (h : IsSilent s path name statement) {d : Deed} (hd : d ∈ deedsOf s statement) :
    name ∉ d.names := by
  intro hname
  obtain ⟨item, hitem, hd⟩ := List.mem_flatMap.1 hd
  rw [IsSilent, mentionedIn_eq_flatMap] at h
  refine h (List.mem_flatMap.2 ⟨item, hitem, ?_⟩)
  cases item with
  | singletonClass | container =>
      rw [List.mem_singleton.1 hd] at hname
      cases hname
  | _ =>
      rw [mentionedBy_leaf, if_pos rfl]
      · exact List.mem_flatMap.2 ⟨d, hd, hname⟩
      · trivial

theorem declared? (h : IsSilent s path name statement) {d : Deed} (hd : d ∈ deedsOf s statement) :
    d.declared? name = none := by
  have hname := h.names hd
  cases d with
  | declare n v =>
      refine if_neg fun hn => hname ?_
      rw [hn]
      exact List.mem_singleton_self name
  | _ => rfl

end IsSilent

/-- Silent statements leave the latest definition of the name alone. -/
theorem latestOf_foldl_deedsOf {s : Source} {statements : List Node}
    (h : ∀ x ∈ statements, IsSilent s path name x) (w : Walk) :
    latestOf (containerOf path) name
        ((statements.flatMap (deedsOf s)).foldl (Deed.run path) w).found =
      latestOf (containerOf path) name w.found := by
  have hwalk : (statements.flatMap (deedsOf s)).foldl (Deed.run path) w =
      walkItems path (statements.flatMap (items s)) w := by
    rw [walkItems_eq_foldl, List.flatMap_assoc]
    rfl
  rw [hwalk, latestOf_walkItems]
  rw [mentionedIn_eq_flatMap, List.flatMap_assoc, List.mem_flatMap]
  rintro ⟨x, hx, hname⟩
  refine h x hx ?_
  rwa [mentionedIn_eq_flatMap]

end RubyDoc.Outline
