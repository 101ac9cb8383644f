import RubyDoc.Proofs.Outline.Reclassify

/-!
# What an outline records

The walk of an outline records definitions and changes some of them later, but never what they are a
record of and where they belong.  So the node, the name and the container of every definition, and
their order, can be read off the outline (`map_sited_definitionsOf`): the container is that of the
segments around the item, joined from the outermost inward (`exists_definition_of_standsWithin`).
-/

namespace RubyDoc.Outline

open Syntax Analysis

/-! ## Entries -/

/-- What a definition is a record of: a node, the name that it defines, and the access if the
definition is an attribute. -/
structure Entry where
  node : Node
  name : Text
  access : Option Access

/-- What the definition is a record of. -/
def Definition.entry (d : Definition) : Entry :=
  ⟨d.node, d.name, d.access?⟩

/-- What the definition is a record of, with the container to which it belongs. -/
def Definition.sited (d : Definition) : Text × Entry :=
  (d.container, d.entry)

/-- What a deed records. -/
def Deed.entries : Deed → List Entry
  | method node name | singletonMethod node name => [⟨node, name, none⟩]
  | attributes node access names => names.map fun name => ⟨node, name, some access⟩
  | _ => []

/-- What an item records in the body where it stands. -/
def Item.ownEntries (item : Item) : List Entry :=
  item.deeds.flatMap Deed.entries

mutual

/-- What an item records. -/
def Item.entries : Item → List Entry
  | .singletonClass _ inner | .container _ inner => entriesOf inner
  | item => item.ownEntries

/-- What an outline records. -/
def entriesOf : List Item → List Entry
  | [] => []
  | item :: rest => item.entries ++ entriesOf rest

end

mutual

/-- What an item in the container `path` records, each entry with its own container. -/
def Item.sitedEntries (path : Option Text) : Item → List (Text × Entry)
  | .singletonClass _ inner => sitedIn path inner
  | .container segment inner => sitedIn (some (joinContainer (path.getD []) segment)) inner
  | item => item.ownEntries.map (Prod.mk (containerOf path))

/-- What an outline in the container `path` records, each entry with its own container. -/
def sitedIn (path : Option Text) : List Item → List (Text × Entry)
  | [] => []
  | item :: rest => item.sitedEntries path ++ sitedIn path rest

end

theorem entriesOf_eq (outline : List Item) : entriesOf outline = outline.flatMap Item.entries := by
  induction outline with
  | nil => rw [entriesOf]; rfl
  | cons item rest ih => rw [entriesOf, ih, List.flatMap_cons]

theorem mem_sitedIn {path : Option Text} {outline : List Item} {x : Text × Entry} :
    x ∈ sitedIn path outline ↔ ∃ item ∈ outline, x ∈ item.sitedEntries path := by
  induction outline with
  | nil => simp [sitedIn]
  | cons item rest ih => simp [sitedIn, ih]

theorem Item.IsLeaf.entries_eq {item : Item} (h : item.IsLeaf) :
    item.entries = item.ownEntries := by
  cases item <;> first | exact h.elim | rw [Item.entries] <;> nofun

theorem Item.IsLeaf.sitedEntries_eq {item : Item} (h : item.IsLeaf) (path : Option Text) :
    item.sitedEntries path = item.ownEntries.map (Prod.mk (containerOf path)) := by
  cases item <;> first | exact h.elim | rw [Item.sitedEntries] <;> nofun

theorem isLeaf_of_mem_ownEntries {item : Item} {e : Entry} (h : e ∈ item.ownEntries) :
    item.IsLeaf := by
  cases item with
  | singletonClass | container => cases h
  | _ => trivial

theorem map_snd_sitedIn (path : Option Text) (outline : List Item) :
    (sitedIn path outline).map Prod.snd = entriesOf outline := by
  induction outline using outline_induction generalizing path with
  | nil =>
      rw [sitedIn, entriesOf]
      rfl
  | leaf hleaf ih =>
      rw [sitedIn, entriesOf, List.map_append, ih, hleaf.sitedEntries_eq, hleaf.entries_eq,
        List.map_map]
      exact congrArg (· ++ _) (List.map_id _)
  | singletonClass ihinner ihrest =>
      rw [sitedIn, entriesOf, Item.sitedEntries, Item.entries, List.map_append, ihinner, ihrest]
  | container ihinner ihrest =>
      rw [sitedIn, entriesOf, Item.sitedEntries, Item.entries, List.map_append, ihinner, ihrest]

/-! ## The walk -/

section Walks

variable {path : Option Text}

theorem Definition.Keeps.sited_eq {r r' : Definition} (h : r.Keeps r') : r'.sited = r.sited := by
  rw [sited, sited, entry, entry, h.container_eq, h.node_eq, h.name_eq, h.access_eq]

/-- A change of one definition found is none of what it is a record of. -/
theorem map_sited_modifyFirst {p : Definition → Bool} {f : Definition → Definition}
    (hf : ∀ r, p r → r.Keeps (f r)) (found : List Definition) :
    (modifyFirst p f found).map Definition.sited = found.map Definition.sited :=
  map_eq_of_forall₂ (fun _ _ h => h.sited_eq)
    ((LatestChanged.modifyFirst found).forall₂ .refl hf)

theorem map_sited_addMethod (C : Text) (node : Node) (name : Text) (w : Walk) :
    (w.addMethod C node name).found.map Definition.sited =
      (C, ⟨node, name, none⟩) :: w.found.map Definition.sited := by
  rw [Walk.addMethod]
  split
  · rfl
  · split <;> rfl

theorem map_sited_addAttributes (C : Text) (node : Node) (access : Access) (names : List Text)
    (w : Walk) : (w.addAttributes C node access names).found.map Definition.sited =
      (names.map fun name => (C, (⟨node, name, some access⟩ : Entry))).reverse ++
        w.found.map Definition.sited := by
  rw [Walk.addAttributes]
  induction names generalizing w with
  | nil => rfl
  | cons name names ih =>
      rw [List.foldl_cons, ih, List.map_cons, List.reverse_cons, List.append_assoc]
      rfl

/-- The latest records come first. -/
theorem Deed.IsLeaf.map_sited_run {d : Deed} (h : d.IsLeaf) (w : Walk) :
    (d.run path w).found.map Definition.sited =
      (d.entries.map (Prod.mk (containerOf path))).reverse ++ w.found.map Definition.sited := by
  cases d with
  | method node name => exact map_sited_addMethod _ node name w
  | attributes node access names =>
      rw [entries, List.map_map]
      exact map_sited_addAttributes _ node access names w
  | promote name =>
      exact map_sited_modifyFirst (fun r hr => Definition.keeps_promoted hr _) w.found
  | setClassVisibility name v =>
      exact map_sited_modifyFirst (fun r _ => r.keeps_visibility v) w.found
  | singletonClass | container => exact h.elim
  | singletonMethod | fromHere | declare | functionsFromHere | function => rfl

theorem map_sited_foldl_run {deeds : List Deed} (h : ∀ d ∈ deeds, d.IsLeaf) (w : Walk) :
    (deeds.foldl (Deed.run path) w).found.map Definition.sited =
      ((deeds.flatMap Deed.entries).map (Prod.mk (containerOf path))).reverse ++
        w.found.map Definition.sited := by
  induction deeds generalizing w with
  | nil => rfl
  | cons d deeds ih =>
      obtain ⟨hd, hdeeds⟩ := List.forall_mem_cons.1 h
      rw [List.foldl_cons, ih hdeeds, hd.map_sited_run, List.flatMap_cons, List.map_append,
        List.reverse_append, List.append_assoc]

theorem map_sited_walkItems (outline : List Item) (w : Walk) :
    (walkItems path outline w).found.map Definition.sited =
      (sitedIn path outline).reverse ++ w.found.map Definition.sited := by
  induction outline using outline_induction generalizing path w with
  | nil =>
      rw [walkItems, sitedIn]
      rfl
  | leaf hleaf ih =>
      rw [walkItems, ih, walkItem_eq_foldl, map_sited_foldl_run hleaf.deeds, sitedIn,
        hleaf.sitedEntries_eq, Item.ownEntries, List.reverse_append, List.append_assoc]
  | singletonClass ihinner ihrest =>
      rw [walkItems, ihrest, walkItem, ihinner, sitedIn, Item.sitedEntries, List.reverse_append,
        List.append_assoc]
  | container ihinner ihrest =>
      rw [walkItems, ihrest, walkItem, ihinner, sitedIn, Item.sitedEntries, List.reverse_append,
        List.append_assoc]

/-- The definitions of an outline are what its items record, in order. -/
theorem map_sited_definitionsOf (outline : List Item) :
    (definitionsOf outline).map Definition.sited = sitedIn none outline := by
  rw [definitionsOf, List.map_reverse, map_sited_walkItems, List.map_nil, List.append_nil,
    List.reverse_reverse]

theorem map_entry_definitionsOf (outline : List Item) :
    (definitionsOf outline).map Definition.entry = entriesOf outline := by
  rw [← map_snd_sitedIn none, ← map_sited_definitionsOf, List.map_map]
  rfl

end Walks

/-! ## Containers around an item -/

/-- The path of the containers with the given segments in the container `path`, the outermost
first. -/
def within (path : Option Text) (segments : List Text) : Option Text :=
  segments.foldl (fun path segment => some (joinContainer (path.getD []) segment)) path

theorem within_of_ne_nil {segments : List Text} (h : segments ≠ []) (path : Option Text) :
    within path segments = some (segments.foldl joinContainer (path.getD [])) := by
  rw [within]
  induction segments generalizing path with
  | nil => exact absurd rfl h
  | cons segment segments ih =>
      cases segments with
      | nil => rfl
      | cons next segments => exact ih (List.cons_ne_nil _ _) _

/-- The item stands in the outline in containers with these segments, the outermost first. -/
inductive StandsWithin (item : Item) : List Text → List Item → Prop
  | here {outline : List Item} (h : item ∈ outline) : StandsWithin item [] outline
  | singletonClass {onSelf : Bool} {segments : List Text} {inner outline : List Item}
      (h : .singletonClass onSelf inner ∈ outline) (hitem : StandsWithin item segments inner) :
      StandsWithin item segments outline
  | container {segment : Text} {segments : List Text} {inner outline : List Item}
      (h : .container segment inner ∈ outline) (hitem : StandsWithin item segments inner) :
      StandsWithin item (segment :: segments) outline

theorem mem_sitedIn_of_standsWithin {item : Item} {segments : List Text} {outline : List Item}
    (h : StandsWithin item segments outline) {e : Entry} (he : e ∈ item.ownEntries)
    (path : Option Text) : (containerOf (within path segments), e) ∈ sitedIn path outline := by
  induction h generalizing path with
  | here h =>
      refine mem_sitedIn.2 ⟨item, h, ?_⟩
      rw [(isLeaf_of_mem_ownEntries he).sitedEntries_eq]
      exact List.mem_map_of_mem he
  | singletonClass h _ ih =>
      refine mem_sitedIn.2 ⟨_, h, ?_⟩
      rw [Item.sitedEntries]
      exact ih path
  | container h _ ih =>
      refine mem_sitedIn.2 ⟨_, h, ?_⟩
      rw [Item.sitedEntries]
      exact ih _

/-- What an item records is found, in the container that the segments around it make up. -/
theorem exists_definition_of_standsWithin {item : Item} {segments : List Text}
    {outline : List Item} (h : StandsWithin item segments outline) {e : Entry}
    (he : e ∈ item.ownEntries) :
    ∃ d ∈ definitionsOf outline,
      d.entry = e ∧ d.container = containerOf (within none segments) := by
  have hmem := mem_sitedIn_of_standsWithin h he none
  rw [← map_sited_definitionsOf] at hmem
  obtain ⟨d, hd, hsited⟩ := List.mem_map.1 hmem
  exact ⟨d, hd, congrArg Prod.snd hsited, congrArg Prod.fst hsited⟩

end RubyDoc.Outline
