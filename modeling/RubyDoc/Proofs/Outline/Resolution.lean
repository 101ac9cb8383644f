import RubyDoc.Proofs.Outline.Scan

/-!
# Scope and visibility by a backward scan

What a definition is recorded as can be read off the statements before it, without following the
walk: `recorded_as_scanned`.  A method is a function of the module if the word for it was said and
not taken back by a visibility keyword, or if some call named the method; otherwise its visibility
is the one given to its name last, or else the one set last for all that follows.  The statement is
about the moment of recording; what later calls make of a recorded definition is not part of it.
-/

namespace RubyDoc.Outline

open Syntax

/-! ## What a statement says -/

/-- The visibility that a keyword without arguments sets for all that follows. -/
def bareKeyword? (s : Source) (n : Node) : Option Visibility :=
  match directive? s n with
  | some (.visibility v) => if n.arguments.isEmpty then some v else none
  | _ => none

/-- Is the statement the bare word that makes the methods that follow functions of the module? -/
def IsFunctionWord (s : Source) (n : Node) : Prop :=
  directive? s n = some .moduleFunction ∧ n.arguments = []

/-- The names that an argument of a visibility keyword mentions: that of a definition in place,
those of attributes in place, or the one that a symbol or string spells. -/
def mentioned (s : Source) (n : Node) : List Text :=
  match n.kind with
  | .method | .singletonMethod => (methodName? s n).toList
  | _ =>
      match directive? s n with
      | some (.attribute _) => attributeNames s n
      | _ => (s.symbolName? n).toList

/-- The visibility that a keyword gives to `name`, if an argument mentions it. -/
def keywordNaming? (s : Source) (name : Text) (n : Node) : Option Visibility :=
  match directive? s n with
  | some (.visibility v) =>
      if n.arguments.any fun a => (mentioned s a).contains name then some v else none
  | _ => none

/-- The name that an argument mentions when functions of the module are made: that of a method
defined in place, or the one that a symbol or string spells. -/
def mentionedFunction? (s : Source) (n : Node) : Option Text :=
  match n.kind with
  | .method => methodName? s n
  | _ => s.symbolName? n

/-- Does the statement make `name` a function of the module? -/
def NamesFunction (s : Source) (name : Text) (n : Node) : Prop :=
  directive? s n = some .moduleFunction ∧ ∃ a ∈ n.arguments, mentionedFunction? s a = some name

/-! ## Places in a body -/

/-- A place in a body where a deed is done: the statements around it, and the deeds around it in
its own statement. -/
structure Place (s : Source) (body : Node) (deed : Deed) where
  before : List Node
  statement : Node
  after : List Node
  earlier : List Deed
  later : List Deed
  statements_eq : body.statements = before ++ statement :: after
  deeds_eq : deedsOf s statement = earlier ++ deed :: later

namespace Place

variable {s : Source} {body : Node} {deed : Deed}

/-- The walk of the body from `w` as it comes to the place. -/
def walk (p : Place s body deed) (path : Option Text) (w : Walk) : Walk :=
  (p.before.flatMap (deedsOf s) ++ p.earlier).foldl (Deed.run path) w

/-- How the walk of the body goes on behind the place. -/
def goOn (p : Place s body deed) (path : Option Text) (w : Walk) : Walk :=
  (p.later ++ p.after.flatMap (deedsOf s)).foldl (Deed.run path) w

/-- Is a method `name` at the place a function of the module?  It is if some earlier word says so
and no visibility keyword after it takes it back, or if a call up to the place names it. -/
def MakesFunction (p : Place s body deed) (name : Text) : Prop :=
  (∃ before₁ word before₂, p.before = before₁ ++ word :: before₂ ∧ IsFunctionWord s word ∧
      ∀ k ∈ before₂, bareKeyword? s k = none) ∨
    ∃ call ∈ p.before ++ [p.statement], NamesFunction s name call

/-- The visibility of `name` at the place: the one given to it last by a keyword up to the place,
or else the one set last for all that follows, or else public. -/
def visibility (p : Place s body deed) (name : Text) : Visibility :=
  (latest (keywordNaming? s name) (p.before ++ [p.statement])).getD
    ((latest (bareKeyword? s) p.before).getD .pub)

/-- The walk of a body passes every place in it. -/
theorem walkItems_eq (p : Place s body deed) (path : Option Text) (w : Walk) :
    walkItems path (ofRoot s body) w = p.goOn path (deed.run path (p.walk path w)) := by
  rw [walkItems_ofRoot, p.statements_eq, List.flatMap_append, List.flatMap_cons, p.deeds_eq, walk,
    goOn]
  simp only [List.foldl_append, List.foldl_cons, List.append_assoc, List.cons_append]

end Place

/-! ## What an argument says -/

namespace Argument

/-- The names that an argument mentions. -/
def names : Argument → List Text
  | method _ name | singletonMethod _ name | named name => [name]
  | attributes _ _ names => names

/-- The name of the module function that an argument makes. -/
def functionName? : Argument → Option Text
  | method _ name | named name => some name
  | singletonMethod _ _ | attributes _ _ _ => none

theorem latest_declared_visibilityDeeds (v : Visibility) (name : Text) (a : Argument) :
    latest (Deed.declared? name) (a.visibilityDeeds v) =
      if name ∈ a.names then some v else none := by
  cases a with
  | attributes node access names =>
      have hmap : latest (Deed.declared? name) (names.map fun n => .declare n v) =
          latest (fun n => if decide (n = name) then some v else none) names := by
        rw [latest, ← List.map_reverse, List.findSome?_map, latest]
        simp [Function.comp_def, Deed.declared?]
      rw [visibilityDeeds, latest_concat, hmap, latest_ite]
      by_cases hn : name ∈ names <;> simp [Deed.declared?, Argument.names, hn]
  | method node n | singletonMethod node n | named n =>
      by_cases hn : n = name
      · simp [latest, visibilityDeeds, List.findSome?_cons, Deed.declared?, Argument.names, hn]
      · simp [latest, visibilityDeeds, List.findSome?_cons, Deed.declared?, Argument.names, hn,
          Ne.symm hn]

theorem function_mem_functionDeeds {name : Text} {a : Argument} :
    .function name ∈ a.functionDeeds ↔ a.functionName? = some name := by
  cases a <;> simp [functionDeeds, functionName?, eq_comm]

/-- An argument of a visibility keyword says nothing about what follows but its own names. -/
theorem of_mem_visibilityDeeds {v : Visibility} {a : Argument} {d : Deed}
    (h : d ∈ a.visibilityDeeds v) :
    d.fromHere? = none ∧ d.functions? = none ∧ ∀ name, d ≠ .function name := by
  cases a <;> simp only [visibilityDeeds, List.mem_append, List.mem_map, List.mem_cons,
    List.not_mem_nil, or_false] at h
  · rcases h with rfl | rfl <;> exact ⟨rfl, rfl, fun _ h => by cases h⟩
  · rcases h with rfl | rfl <;> exact ⟨rfl, rfl, fun _ h => by cases h⟩
  · rcases h with ⟨name, -, rfl⟩ | rfl <;> exact ⟨rfl, rfl, fun _ h => by cases h⟩
  · subst h
    exact ⟨rfl, rfl, fun _ h => by cases h⟩

/-- An argument that makes a function of the module sets no visibility. -/
theorem of_mem_functionDeeds {a : Argument} {d : Deed} (h : d ∈ a.functionDeeds) :
    d.fromHere? = none ∧ d.functions? = none ∧ ∀ name, d.declared? name = none := by
  cases a <;> simp only [functionDeeds, List.mem_cons, List.not_mem_nil, or_false] at h
  · rcases h with rfl | rfl <;> exact ⟨rfl, rfl, fun _ => rfl⟩
  · rcases h with rfl | rfl <;> exact ⟨rfl, rfl, fun _ => rfl⟩

end Argument

theorem mentioned_eq (s : Source) (n : Node) :
    mentioned s n = (argument? s n).toList.flatMap Argument.names := by
  by_cases hmethod : n.kind = .method
  · rw [mentioned, argument?_method s hmethod, hmethod]
    cases methodName? s n <;> rfl
  by_cases hsingleton : n.kind = .singletonMethod
  · rw [mentioned, argument?_singletonMethod s hsingleton, hsingleton]
    cases methodName? s n <;> rfl
  have hrest : mentioned s n =
      match directive? s n with
      | some (.attribute _) => attributeNames s n
      | _ => (s.symbolName? n).toList := by
    rw [mentioned]
    split
    · exact absurd ‹_› hmethod
    · exact absurd ‹_› hsingleton
    · rfl
  rw [hrest]
  split
  · rename_i access hdirective
    rw [argument?_attribute s hdirective]
    simp [Argument.names]
  · rename_i hdirective
    rw [argument?_other s hmethod hsingleton hdirective]
    cases s.symbolName? n <;> rfl

theorem mentionedFunction?_eq (s : Source) (n : Node) :
    mentionedFunction? s n = (argument? s n).bind Argument.functionName? := by
  by_cases hmethod : n.kind = .method
  · rw [mentionedFunction?, argument?_method s hmethod, hmethod]
    cases methodName? s n <;> rfl
  have hrest : mentionedFunction? s n = s.symbolName? n := by
    rw [mentionedFunction?]
    split
    · exact absurd ‹_› hmethod
    · rfl
  rw [hrest]
  by_cases hsingleton : n.kind = .singletonMethod
  · rw [argument?_singletonMethod s hsingleton, Source.symbolName?, hsingleton]
    cases methodName? s n <;> rfl
  by_cases hattribute : ∃ access, directive? s n = some (.attribute access)
  · obtain ⟨access, hdirective⟩ := hattribute
    rw [argument?_attribute s hdirective, Source.symbolName?, kind_of_attribute s hdirective]
    rfl
  · rw [argument?_other s hmethod hsingleton fun access h => hattribute ⟨access, h⟩]
    cases s.symbolName? n <;> rfl

/-! ## What a statement says, by its deeds -/

section Statement

variable (s : Source) (name : Text) (n : Node)

/-- What a statement says about making functions of the module from here on. -/
def functionWord? (s : Source) (n : Node) : Option Bool :=
  match directive? s n with
  | some (.visibility _) => if n.arguments.isEmpty then some false else none
  | some .moduleFunction => if n.arguments.isEmpty then some true else none
  | _ => none

theorem latest_declared_deedsOf :
    latest (Deed.declared? name) (deedsOf s n) = keywordNaming? s name n := by
  rw [keywordNaming?]
  split
  · rename_i v hdirective
    rw [deedsOf_visibility s hdirective]
    split
    · rename_i hempty
      rw [List.isEmpty_iff.1 hempty]
      rfl
    · rw [flatMap_filterMap, latest_flatMap, ← latest_ite]
      congr 1
      funext a
      rw [mentioned_eq]
      cases argument? s a with
      | none => rfl
      | some argument => simp [Argument.latest_declared_visibilityDeeds]
  · rename_i hvisibility
    by_cases hfunction : directive? s n = some .moduleFunction
    · rw [deedsOf_moduleFunction s hfunction]
      split
      · rfl
      · refine latest_eq_none_iff.2 fun d hd => ?_
        obtain ⟨a, -, hd⟩ := List.mem_flatMap.1 hd
        exact (Argument.of_mem_functionDeeds hd).2.2 name
    · exact latest_eq_none_iff.2 fun d hd =>
        (isQuiet_of_mem_deedsOf s hvisibility hfunction hd).declared?_eq name

theorem latest_fromHere_deedsOf : latest Deed.fromHere? (deedsOf s n) = bareKeyword? s n := by
  rw [bareKeyword?]
  split
  · rename_i v hdirective
    rw [deedsOf_visibility s hdirective]
    split
    · rfl
    · refine latest_eq_none_iff.2 fun d hd => ?_
      obtain ⟨a, -, hd⟩ := List.mem_flatMap.1 hd
      exact (Argument.of_mem_visibilityDeeds hd).1
  · rename_i hvisibility
    by_cases hfunction : directive? s n = some .moduleFunction
    · rw [deedsOf_moduleFunction s hfunction]
      split
      · rfl
      · refine latest_eq_none_iff.2 fun d hd => ?_
        obtain ⟨a, -, hd⟩ := List.mem_flatMap.1 hd
        exact (Argument.of_mem_functionDeeds hd).1
    · exact latest_eq_none_iff.2 fun d hd =>
        (isQuiet_of_mem_deedsOf s hvisibility hfunction hd).fromHere?_eq

theorem latest_functions_deedsOf : latest Deed.functions? (deedsOf s n) = functionWord? s n := by
  rw [functionWord?]
  split
  · rename_i v hdirective
    rw [deedsOf_visibility s hdirective]
    split
    · rfl
    · refine latest_eq_none_iff.2 fun d hd => ?_
      obtain ⟨a, -, hd⟩ := List.mem_flatMap.1 hd
      exact (Argument.of_mem_visibilityDeeds hd).2.1
  · rename_i hdirective
    rw [deedsOf_moduleFunction s hdirective]
    split
    · rfl
    · refine latest_eq_none_iff.2 fun d hd => ?_
      obtain ⟨a, -, hd⟩ := List.mem_flatMap.1 hd
      exact (Argument.of_mem_functionDeeds hd).2.1
  · rename_i hvisibility hfunction
    exact latest_eq_none_iff.2 fun d hd =>
      (isQuiet_of_mem_deedsOf s hvisibility hfunction hd).functions?_eq

theorem function_mem_deedsOf : .function name ∈ deedsOf s n ↔ NamesFunction s name n := by
  rw [NamesFunction]
  by_cases hfunction : directive? s n = some .moduleFunction
  · rw [deedsOf_moduleFunction s hfunction]
    split
    · rename_i hempty
      simp [hfunction, List.isEmpty_iff.1 hempty]
    · simp only [hfunction, true_and, List.mem_flatMap, List.mem_filterMap,
        Argument.function_mem_functionDeeds, mentionedFunction?_eq, Option.bind_eq_some_iff]
      constructor
      · rintro ⟨argument, ⟨a, ha, hargument⟩, hname⟩
        exact ⟨a, ha, argument, hargument, hname⟩
      · rintro ⟨a, ha, argument, hargument, hname⟩
        exact ⟨argument, ⟨a, ha, hargument⟩, hname⟩
  · refine iff_of_false (fun hd => ?_) fun h => hfunction h.1
    by_cases hvisibility : ∃ v, directive? s n = some (.visibility v)
    · obtain ⟨v, hdirective⟩ := hvisibility
      rw [deedsOf_visibility s hdirective] at hd
      split at hd
      · simp at hd
      · obtain ⟨a, -, hd⟩ := List.mem_flatMap.1 hd
        exact (Argument.of_mem_visibilityDeeds hd).2.2 name rfl
    · exact (isQuiet_of_mem_deedsOf s (fun v h => hvisibility ⟨v, h⟩) hfunction hd).ne_function
        name rfl

theorem functionWord?_eq_true_iff : functionWord? s n = some true ↔ IsFunctionWord s n := by
  rw [functionWord?, IsFunctionWord]
  split
  · simp_all
  · simp_all
  · rename_i hfunction
    exact iff_of_false (fun h => by cases h) fun h => hfunction h.1

theorem functionWord?_eq_false_iff :
    functionWord? s n = some false ↔ ∃ v, bareKeyword? s n = some v := by
  rw [functionWord?, bareKeyword?]
  split <;> simp_all

/-- Functions of the module are made if some word said so and no keyword after it took it back. -/
theorem latest_functionWord_eq_true_iff (l : List Node) :
    latest (functionWord? s) l = some true ↔
      ∃ l₁ word l₂, l = l₁ ++ word :: l₂ ∧ IsFunctionWord s word ∧
        ∀ k ∈ l₂, bareKeyword? s k = none := by
  constructor
  · intro h
    obtain ⟨l₁, word, l₂, rfl, hword, hl₂⟩ := latest_eq_some_iff.1 h
    refine ⟨l₁, word, l₂, rfl, (functionWord?_eq_true_iff s word).1 hword, fun k hk => ?_⟩
    rw [Option.eq_none_iff_forall_ne_some]
    intro v hv
    have hfalse := (functionWord?_eq_false_iff s k).2 ⟨v, hv⟩
    rw [hl₂ k hk] at hfalse
    cases hfalse
  · rintro ⟨l₁, word, l₂, rfl, hword, hl₂⟩
    rw [← List.singleton_append, ← List.append_assoc, latest_append, latest_concat,
      (functionWord?_eq_true_iff s word).2 hword]
    -- A later word of the same kind changes nothing, and no keyword takes it back.
    rcases hlatest : latest (functionWord? s) l₂ with _ | _ | _
    · rfl
    · obtain ⟨_, k, _, rfl, hk, -⟩ := latest_eq_some_iff.1 hlatest
      obtain ⟨v, hv⟩ := (functionWord?_eq_false_iff s k).1 hk
      rw [hl₂ k (by simp)] at hv
      cases hv
    · rfl

end Statement

/-! ## What is said up to a place -/

namespace Argument

/-- In a visibility keyword a method is declared just before it is defined. -/
theorem before_method_of_visibilityDeeds {v : Visibility} {a : Argument} {p q : List Deed}
    {d : Node} {name : Text} (h : a.visibilityDeeds v = p ++ .method d name :: q) :
    p = [.declare name v] := by
  have hmem : Deed.method d name ∈ a.visibilityDeeds v := by simp [h]
  cases a with
  | method node n =>
      rcases p with _ | ⟨x, _ | ⟨y, p⟩⟩ <;> simp [visibilityDeeds] at h
      obtain ⟨rfl, ⟨-, rfl⟩, -⟩ := h
      rfl
  | _ => simp [visibilityDeeds] at hmem

theorem before_method_of_functionDeeds {a : Argument} {p q : List Deed} {d : Node} {name : Text}
    (h : a.functionDeeds = p ++ .method d name :: q) : p = [.function name] := by
  have hmem : Deed.method d name ∈ a.functionDeeds := by simp [h]
  cases a with
  | method node n =>
      rcases p with _ | ⟨x, _ | ⟨y, p⟩⟩ <;> simp [functionDeeds] at h
      obtain ⟨rfl, ⟨-, rfl⟩, -⟩ := h
      rfl
  | _ => simp [functionDeeds] at hmem

end Argument

section SaidBefore

variable {s : Source} {statement d : Node} {name : Text} {earlier later : List Deed}

theorem mem_deedsOf_of_before (h : deedsOf s statement = earlier ++ .method d name :: later)
    {deed : Deed} (hdeed : deed ∈ earlier) : deed ∈ deedsOf s statement :=
  h ▸ List.mem_append_left _ hdeed

/-- A call with a visibility says it of the name, and says nothing else that matters to it. -/
theorem said_before_method_of_visibility {v : Visibility}
    (hdirective : directive? s statement = some (.visibility v))
    (h : deedsOf s statement = earlier ++ .method d name :: later) :
    latest (Deed.declared? name) earlier = keywordNaming? s name statement ∧
      .function name ∉ earlier ∧
      latest Deed.fromHere? earlier = none ∧ latest Deed.functions? earlier = none := by
  have hmethod : Deed.method d name ∈ deedsOf s statement := by simp [h]
  have hdeeds := deedsOf_visibility s hdirective
  by_cases hempty : statement.arguments.isEmpty
  · -- The bare word defines no method.
    rw [if_pos hempty] at hdeeds
    simp [hdeeds] at hmethod
  rw [if_neg hempty] at hdeeds
  have hquiet : ∀ deed ∈ earlier, deed.fromHere? = none ∧ deed.functions? = none ∧
      ∀ n, deed ≠ .function n := fun deed hdeed => by
    obtain ⟨a, -, ha⟩ := List.mem_flatMap.1 (hdeeds ▸ mem_deedsOf_of_before h hdeed)
    exact Argument.of_mem_visibilityDeeds ha
  refine ⟨?_, fun hdeed => (hquiet _ hdeed).2.2 name rfl,
    latest_eq_none_iff.2 fun deed hdeed => (hquiet deed hdeed).1,
    latest_eq_none_iff.2 fun deed hdeed => (hquiet deed hdeed).2.1⟩
  -- The last thing said before the method is the visibility of its name.
  obtain ⟨l₁, a, l₂, p, q, hl, ha, rfl⟩ := flatMap_eq_append_cons (hdeeds.symm.trans h)
  obtain rfl := Argument.before_method_of_visibilityDeeds ha
  have hnaming := latest_declared_deedsOf s name statement
  rw [latest_concat]
  rw [keywordNaming?, hdirective] at hnaming ⊢
  dsimp only at hnaming ⊢
  split
  · simp [Deed.declared?]
  · rename_i hany
    rw [if_neg hany, latest_eq_none_iff] at hnaming
    have hdeclare := hnaming (.declare name v) (mem_deedsOf_of_before h (by simp))
    simp [Deed.declared?] at hdeclare

/-- A call that makes functions of the module makes one of the name, and says nothing else that
matters to it. -/
theorem said_before_method_of_moduleFunction
    (hdirective : directive? s statement = some .moduleFunction)
    (h : deedsOf s statement = earlier ++ .method d name :: later) :
    latest (Deed.declared? name) earlier = none ∧ .function name ∈ earlier ∧
      latest Deed.fromHere? earlier = none ∧ latest Deed.functions? earlier = none := by
  have hmethod : Deed.method d name ∈ deedsOf s statement := by simp [h]
  have hdeeds := deedsOf_moduleFunction s hdirective
  by_cases hempty : statement.arguments.isEmpty
  · rw [if_pos hempty] at hdeeds
    simp [hdeeds] at hmethod
  rw [if_neg hempty] at hdeeds
  have hquiet : ∀ deed ∈ earlier, deed.fromHere? = none ∧ deed.functions? = none ∧
      ∀ n, deed.declared? n = none := fun deed hdeed => by
    obtain ⟨a, -, ha⟩ := List.mem_flatMap.1 (hdeeds ▸ mem_deedsOf_of_before h hdeed)
    exact Argument.of_mem_functionDeeds ha
  refine ⟨latest_eq_none_iff.2 fun deed hdeed => (hquiet deed hdeed).2.2 name, ?_,
    latest_eq_none_iff.2 fun deed hdeed => (hquiet deed hdeed).1,
    latest_eq_none_iff.2 fun deed hdeed => (hquiet deed hdeed).2.1⟩
  obtain ⟨l₁, a, l₂, p, q, hl, ha, rfl⟩ := flatMap_eq_append_cons (hdeeds.symm.trans h)
  obtain rfl := Argument.before_method_of_functionDeeds ha
  simp

/-- What a call says of the name of a method defined in it, it says before the definition. -/
theorem said_before_method (h : deedsOf s statement = earlier ++ .method d name :: later) :
    latest (Deed.declared? name) earlier = keywordNaming? s name statement ∧
      (.function name ∈ earlier ↔ NamesFunction s name statement) ∧
      latest Deed.fromHere? earlier = none ∧ latest Deed.functions? earlier = none := by
  by_cases hvisibility : ∃ v, directive? s statement = some (.visibility v)
  · obtain ⟨v, hdirective⟩ := hvisibility
    obtain ⟨hdeclared, hfunction, hsilent⟩ := said_before_method_of_visibility hdirective h
    refine ⟨hdeclared, iff_of_false hfunction fun hname => ?_, hsilent⟩
    rw [NamesFunction, hdirective] at hname
    cases hname.1
  have hvisibility' : ∀ v, directive? s statement ≠ some (.visibility v) :=
    fun v hv => hvisibility ⟨v, hv⟩
  have hnaming : keywordNaming? s name statement = none := by
    rw [keywordNaming?]
    split
    · exact absurd ‹_› (hvisibility' _)
    · rfl
  rw [hnaming, ← function_mem_deedsOf]
  by_cases hfunction : directive? s statement = some .moduleFunction
  · obtain ⟨hdeclared, hmem, hsilent⟩ := said_before_method_of_moduleFunction hfunction h
    exact ⟨hdeclared, iff_of_true hmem (mem_deedsOf_of_before h hmem), hsilent⟩
  · -- Any other statement does nothing but define methods.
    have hquiet : ∀ deed ∈ deedsOf s statement, deed.IsQuiet := fun deed hdeed =>
      isQuiet_of_mem_deedsOf s hvisibility' hfunction hdeed
    have hbefore : ∀ deed ∈ earlier, deed.IsQuiet := fun deed hdeed =>
      hquiet deed (mem_deedsOf_of_before h hdeed)
    exact ⟨latest_eq_none_iff.2 fun deed hdeed => (hbefore deed hdeed).declared?_eq name,
      iff_of_false (fun hdeed => (hbefore _ hdeed).ne_function name rfl)
        fun hdeed => (hquiet _ hdeed).ne_function name rfl,
      latest_eq_none_iff.2 fun deed hdeed => (hbefore deed hdeed).fromHere?_eq,
      latest_eq_none_iff.2 fun deed hdeed => (hbefore deed hdeed).functions?_eq⟩

end SaidBefore

namespace Place

variable {s : Source} {body d : Node} {name : Text}

/-- The context of the walk at a place is what the deeds before the place made of it. -/
theorem context_walk {deed : Deed} (p : Place s body deed) (path : Option Text) (w : Walk) :
    (p.walk path w).context =
      (p.before.flatMap (deedsOf s) ++ p.earlier).foldl Deed.onContext w.context := by
  rw [walk, Deed.context_foldl]

/-- From a start where nothing is declared, the walk comes to a method with the visibility that a
backward scan finds. -/
theorem visibility_eq (p : Place s body (.method d name)) (path : Option Text) {w : Walk}
    (hnames : w.context.names = []) (hdefault : w.context.default = .pub) :
    ((p.walk path w).context.names.lookup name).getD (p.walk path w).context.default =
      p.visibility name := by
  obtain ⟨hdeclared, -, hfrom, -⟩ := said_before_method p.deeds_eq
  rw [context_walk, Deed.lookup_names_foldl, Deed.default_foldl, hnames, hdefault, latest_append,
    latest_append, latest_flatMap, latest_flatMap, hdeclared, hfrom, visibility, latest_concat]
  simp only [latest_declared_deedsOf, latest_fromHere_deedsOf, List.lookup_nil, Option.or_none,
    Option.none_or]

/-- Outside singleton classes, from a start where nothing is declared, the walk comes to a method
that it makes a function of the module just if the backward scan says so. -/
theorem makesFunction_iff (p : Place s body (.method d name)) (path : Option Text) {w : Walk}
    (hself : w.context.onSelf = false) (hdefault : w.context.moduleFunctionDefault = false)
    (hnames : w.context.moduleFunctionNames = []) :
    ((p.walk path w).context.moduleFunctionDefault ||
        decide (name ∈ (p.walk path w).context.moduleFunctionNames)) = true ↔
      p.MakesFunction name := by
  obtain ⟨-, hfunction, -, hfunctions⟩ := said_before_method p.deeds_eq
  rw [Bool.or_eq_true, decide_eq_true_iff, context_walk, Deed.functionDefault_foldl hself,
    Deed.mem_functionNames_foldl, hdefault, hnames, latest_append, latest_flatMap, hfunctions,
    Option.none_or]
  simp only [latest_functions_deedsOf]
  rw [MakesFunction, ← latest_functionWord_eq_true_iff]
  refine or_congr ?_ ?_
  · rcases latest (functionWord? s) p.before with _ | _ | _ <;> simp
  · simp only [List.mem_append, List.mem_flatMap, function_mem_deedsOf, hfunction,
      List.mem_singleton, List.not_mem_nil, or_false]
    constructor
    · rintro (⟨call, hcall, hname⟩ | hname)
      · exact ⟨call, Or.inl hcall, hname⟩
      · exact ⟨p.statement, Or.inr rfl, hname⟩
    · rintro ⟨call, hcall | rfl, hname⟩
      · exact Or.inl ⟨call, hcall, hname⟩
      · exact Or.inr hname

end Place

/-! ## Where definitions stand -/

/-- Does the directive define a method that is its argument? -/
def TakesMethods (d : Directive) : Prop :=
  (∃ v, d = .visibility v) ∨ d = .moduleFunction

/-- Does the directive define a method of one object that is its argument? -/
def TakesSingletonMethods (d : Directive) : Prop :=
  (∃ v, d = .visibility v) ∨ ∃ v, d = .classVisibility v

/-- Does the definition `d` stand in the body, as a statement or as an argument of a directive
that takes it? -/
def StandsIn (s : Source) (takes : Directive → Prop) (body d : Node) : Prop :=
  ∃ statement ∈ body.statements, statement = d ∨
    ∃ directive, directive? s statement = some directive ∧ takes directive ∧
      d ∈ statement.arguments

theorem Place.exists_of_mem {s : Source} {body statement : Node} {deed : Deed}
    (hstatement : statement ∈ body.statements) (hdeed : deed ∈ deedsOf s statement) :
    ∃ p : Place s body deed, p.statement = statement := by
  obtain ⟨before, after, hbody⟩ := List.append_of_mem hstatement
  obtain ⟨earlier, later, hdeeds⟩ := List.append_of_mem hdeed
  exact ⟨⟨before, statement, after, earlier, later, hbody, hdeeds⟩, rfl⟩

/-- Every method that stands in a body has a place in it. -/
theorem exists_place_of_method {s : Source} {body d : Node} {name : Text}
    (h : StandsIn s TakesMethods body d) (hkind : d.kind = .method)
    (hname : methodName? s d = some name) : Nonempty (Place s body (.method d name)) := by
  obtain ⟨statement, hstatement, hstands⟩ := h
  suffices hdeed : Deed.method d name ∈ deedsOf s statement by
    exact (Place.exists_of_mem hstatement hdeed).nonempty
  rcases hstands with rfl | ⟨directive, hdirective, htakes, harg⟩
  · simp [deedsOf_method s hkind, hname]
  have hempty : ¬ statement.arguments.isEmpty := by
    rw [List.isEmpty_iff]
    exact List.ne_nil_of_mem harg
  have hargument : argument? s d = some (.method d name) := by
    rw [argument?_method s hkind, hname]
    rfl
  rcases htakes with ⟨v, rfl⟩ | rfl
  · rw [deedsOf_visibility s hdirective, if_neg hempty]
    exact List.mem_flatMap.2 ⟨_, List.mem_filterMap.2 ⟨d, harg, hargument⟩,
      by simp [Argument.visibilityDeeds]⟩
  · rw [deedsOf_moduleFunction s hdirective, if_neg hempty]
    exact List.mem_flatMap.2 ⟨_, List.mem_filterMap.2 ⟨d, harg, hargument⟩,
      by simp [Argument.functionDeeds]⟩

/-- Every method of one object that stands in a body has a place in it. -/
theorem exists_place_of_singletonMethod {s : Source} {body d : Node} {name : Text}
    (h : StandsIn s TakesSingletonMethods body d) (hkind : d.kind = .singletonMethod)
    (hname : methodName? s d = some name) : Nonempty (Place s body (.singletonMethod d name)) := by
  obtain ⟨statement, hstatement, hstands⟩ := h
  suffices hdeed : Deed.singletonMethod d name ∈ deedsOf s statement by
    exact (Place.exists_of_mem hstatement hdeed).nonempty
  rcases hstands with rfl | ⟨directive, hdirective, htakes, harg⟩
  · simp [deedsOf_singletonMethod s hkind, hname]
  have hargument : argument? s d = some (.singletonMethod d name) := by
    rw [argument?_singletonMethod s hkind, hname]
    rfl
  rcases htakes with ⟨v, rfl⟩ | ⟨v, rfl⟩
  · have hempty : ¬ statement.arguments.isEmpty := by
      rw [List.isEmpty_iff]
      exact List.ne_nil_of_mem harg
    rw [deedsOf_visibility s hdirective, if_neg hempty]
    exact List.mem_flatMap.2 ⟨_, List.mem_filterMap.2 ⟨d, harg, hargument⟩,
      by simp [Argument.visibilityDeeds]⟩
  · rw [deedsOf_directive s hdirective]
    exact List.mem_flatMap.2 ⟨_, List.mem_filterMap.2 ⟨d, harg, hargument⟩,
      by simp [Argument.classVisibilityDeeds]⟩

/-! ## What is recorded -/

/-- The walk as it enters a singleton class of the container. -/
def Walk.inSelf (w : Walk) : Walk :=
  { w with context := { w.context with onSelf := true, classDefault := .pub } }

namespace Place

variable {s : Source} {body d : Node} {name : Text}

/-- A method that the body makes a function of the module. -/
theorem run_method_of_makesFunction (p : Place s body (.method d name)) (path : Option Text)
    (found : List Definition) (h : p.MakesFunction name) :
    (Deed.method d name).run path (p.walk path { found }) = (p.walk path { found }).record
      ⟨d, name, containerOf path, .onClass, .pub,
        .method (some ((p.walk path { found }).context.copyVisibility name))⟩ := by
  have hself : (p.walk path { found }).context.onSelf = false := by
    rw [context_walk, Deed.onSelf_foldl]
  have hmakes := (p.makesFunction_iff path (w := { found }) rfl rfl rfl).2 h
  rw [Deed.run, Walk.addMethod]
  simp only [hself, Bool.false_eq_true, if_false, hmakes, if_true]

/-- A method that the body leaves to the instances. -/
theorem run_method_of_not_makesFunction (p : Place s body (.method d name)) (path : Option Text)
    (found : List Definition) (h : ¬ p.MakesFunction name) :
    (Deed.method d name).run path (p.walk path { found }) = (p.walk path { found }).record
      ⟨d, name, containerOf path, .onInstance, p.visibility name, .method none⟩ := by
  have hself : (p.walk path { found }).context.onSelf = false := by
    rw [context_walk, Deed.onSelf_foldl]
  have hmakes := mt (p.makesFunction_iff path (w := { found }) rfl rfl rfl).1 h
  have hvisibility := p.visibility_eq path (w := { found }) rfl rfl
  rw [Context.names, Context.default, hself] at hvisibility
  rw [Deed.run, Walk.addMethod]
  simp only [hself, Bool.false_eq_true, if_false, hmakes]
  rw [← hvisibility]
  rfl

/-- A method in a body of its own container. -/
theorem exists_record_method (p : Place s body (.method d name)) (path : Option Text)
    (found : List Definition) :
    ∃ r : Definition, (Deed.method d name).run path (p.walk path { found }) =
        (p.walk path { found }).record r ∧
      r.node = d ∧ r.name = name ∧ r.container = containerOf path ∧ r.isMethod ∧
      (r.scope = .onClass ∧ r.visibility = .pub ∧ r.isModuleFunction ↔ p.MakesFunction name) ∧
      (¬ p.MakesFunction name →
        r.scope = .onInstance ∧ r.visibility = p.visibility name ∧ ¬ r.isModuleFunction) := by
  by_cases hmakes : p.MakesFunction name
  · exact ⟨_, p.run_method_of_makesFunction path found hmakes, rfl, rfl, rfl, rfl,
      iff_of_true ⟨rfl, rfl, rfl⟩ hmakes, fun h => absurd hmakes h⟩
  · exact ⟨_, p.run_method_of_not_makesFunction path found hmakes, rfl, rfl, rfl, rfl,
      iff_of_false (fun h => nomatch h.1) hmakes, fun _ => ⟨rfl, rfl, nofun⟩⟩

/-- A method of the container itself, outside singleton classes. -/
theorem run_singletonMethod (p : Place s body (.singletonMethod d name)) (path : Option Text)
    (found : List Definition) :
    (Deed.singletonMethod d name).run path (p.walk path { found }) =
      (p.walk path { found }).record
        ⟨d, name, containerOf path, .onClass, .pub, .method none⟩ := by
  obtain ⟨hnames, hdefault⟩ := Deed.class_foldl (c := {}) rfl
    (p.before.flatMap (deedsOf s) ++ p.earlier)
  rw [Deed.run, Walk.addSingletonMethod, Context.classVisibility, context_walk, hnames, hdefault]
  rfl

/-- A method in a singleton class of the container. -/
theorem run_method_inSelf {block : Node} {inner : List Item}
    (q : Place s body (.singletonClass true inner)) (p : Place s block (.method d name))
    (path : Option Text) (found : List Definition) :
    (Deed.method d name).run path (p.walk path (q.walk path { found }).inSelf) =
      (p.walk path (q.walk path { found }).inSelf).record
        ⟨d, name, containerOf path, .onClass, p.visibility name, .method none⟩ := by
  obtain ⟨hnames, -⟩ := Deed.class_foldl (c := {}) rfl
    (q.before.flatMap (deedsOf s) ++ q.earlier)
  have hself : (p.walk path (q.walk path { found }).inSelf).context.onSelf = true := by
    rw [context_walk, Deed.onSelf_foldl]
    rfl
  have hvisibility := p.visibility_eq path (w := (q.walk path { found }).inSelf)
    (by
      show ((q.walk path { found }).context).classNames = []
      rw [context_walk, hnames])
    rfl
  rw [Deed.run, Walk.addMethod]
  simp only [hself, if_true]
  rw [← hvisibility, Context.names, Context.default, hself, Context.classVisibility]
  rfl

end Place

/-- **Scope and visibility are those of a backward scan.**  In a body of its own container, a method
is recorded as a public function of the module just if the scan says so, and otherwise as a method
of the instances with the visibility that the scan finds.  A method of one object is recorded as a
public one of the container.  In a singleton class of the container, every method is recorded as
one of the container, with the visibility that a scan of the singleton class finds. -/
theorem recorded_as_scanned (s : Source) (path : Option Text) (found : List Definition)
    (body : Node) :
    (∀ d name,
      (StandsIn s TakesMethods body d → d.kind = .method → methodName? s d = some name →
        Nonempty (Place s body (.method d name))) ∧
      ∀ p : Place s body (.method d name), ∃ r : Definition,
        walkItems path (ofRoot s body) { found } =
          p.goOn path ((p.walk path { found }).record r) ∧
        r.node = d ∧ r.name = name ∧ r.container = containerOf path ∧ r.isMethod ∧
        (r.scope = .onClass ∧ r.visibility = .pub ∧ r.isModuleFunction ↔ p.MakesFunction name) ∧
        (¬ p.MakesFunction name →
          r.scope = .onInstance ∧ r.visibility = p.visibility name ∧ ¬ r.isModuleFunction)) ∧
    (∀ d name,
      (StandsIn s TakesSingletonMethods body d → d.kind = .singletonMethod →
        methodName? s d = some name → Nonempty (Place s body (.singletonMethod d name))) ∧
      ∀ p : Place s body (.singletonMethod d name),
        walkItems path (ofRoot s body) { found } =
          p.goOn path ((p.walk path { found }).record
            ⟨d, name, containerOf path, .onClass, .pub, .method none⟩)) ∧
    ∀ block,
      (block ∈ body.statements → block.kind = .singletonClass → opensOnSelf block →
        ∃ q : Place s body (.singletonClass true (ofRoot s block)), q.statement = block) ∧
      ∀ q : Place s body (.singletonClass true (ofRoot s block)), ∀ d name,
        ∀ p : Place s block (.method d name),
          walkItems path (ofRoot s body) { found } =
            q.goOn path { q.walk path { found } with
              found := (p.goOn path ((p.walk path (q.walk path { found }).inSelf).record
                ⟨d, name, containerOf path, .onClass, p.visibility name,
                  .method none⟩)).found } := by
  refine ⟨fun d name => ⟨exists_place_of_method, fun p => ?_⟩,
    fun d name => ⟨exists_place_of_singletonMethod, fun p => ?_⟩,
    fun block => ⟨fun hblock hkind hself => ?_, fun q d name p => ?_⟩⟩
  · obtain ⟨r, hrecord, hr⟩ := p.exists_record_method path found
    exact ⟨r, by rw [p.walkItems_eq, hrecord], hr⟩
  · rw [p.walkItems_eq, p.run_singletonMethod]
  · refine Place.exists_of_mem hblock ?_
    rw [deedsOf_singletonClass s hkind, hself]
    exact List.mem_singleton_self _
  · -- The walk of the singleton class is one over a body of its own, in the same container.
    rw [q.walkItems_eq, Deed.run, walkItem, ← q.run_method_inSelf p, ← p.walkItems_eq]
    rfl

/-- A keyword and a method that follows it. -/
def privateGo : Source :=
  .ofText "private\ndef go\nend\n"

/-- The keyword. -/
def privateWord : Node :=
  ⟨.identifier, none, 0, 7, 0, true, false, false, []⟩

/-- The method below the keyword. -/
def goBelow : Node :=
  ⟨.method, none, 8, 18, 1, true, false, false,
    [⟨.identifier, some .name, 12, 14, 1, true, false, false, []⟩]⟩

/-- The file with the keyword and the method. -/
def privateGoRoot : Node :=
  ⟨.program, none, 0, 19, 0, true, false, false, [privateWord, goBelow]⟩

/-- A method below the bare keyword is private. -/
theorem recorded_as_scanned_private :
    StandsIn privateGo TakesMethods privateGoRoot goBelow ∧
      methodName? privateGo goBelow = some (Text.ofString "go") ∧
      Nonempty (Place privateGo privateGoRoot (.method goBelow (Text.ofString "go"))) ∧
      ∃ r, (walkItems none (ofRoot privateGo privateGoRoot) {}).found = [r] ∧
        r.scope = .onInstance ∧ r.visibility = .priv := by
  have hstands : StandsIn privateGo TakesMethods privateGoRoot goBelow :=
    ⟨goBelow, by simp [privateGoRoot, Node.statements, Node.code, Node.isCode, goBelow],
      Or.inl rfl⟩
  have hname : methodName? privateGo goBelow = some (Text.ofString "go") := by decide
  have hword : directive? privateGo privateWord = some (.visibility .priv) := by decide
  have hgo : directive? privateGo goBelow = none := by decide
  obtain ⟨hplace, hrecorded⟩ :=
    (recorded_as_scanned privateGo none [] privateGoRoot).1 goBelow (Text.ofString "go")
  obtain ⟨r, hwalk, -, -, -, -, -, hinstance⟩ := hrecorded
    ⟨[privateWord], goBelow, [], [], [], rfl, by rw [deedsOf_method _ rfl, hname]; rfl⟩
  obtain ⟨hscope, hvisibility, -⟩ := hinstance <| by
    rintro (⟨before₁, word, before₂, hbefore, hfunction, -⟩ | ⟨call, hcall, hfunction⟩)
    · obtain rfl : word = privateWord := by
        have hmem : word ∈ [privateWord] := by simp [show [privateWord] = _ from hbefore]
        exact List.mem_singleton.1 hmem
      simp [IsFunctionWord, hword] at hfunction
    · have hmem : call ∈ [privateWord, goBelow] := hcall
      simp only [List.mem_cons, List.not_mem_nil, or_false] at hmem
      rcases hmem with rfl | rfl
      · simp [NamesFunction, hword] at hfunction
      · simp [NamesFunction, hgo] at hfunction
  have hkeyword : deedsOf privateGo privateWord = [.fromHere .priv] := by
    rw [deedsOf_visibility _ hword]
    rfl
  refine ⟨hstands, hname, hplace hstands rfl hname, r, ?_, hscope, hvisibility.trans ?_⟩
  · rw [hwalk, Place.goOn, Place.walk, List.flatMap_singleton, hkeyword]
    rfl
  · show (latest (keywordNaming? privateGo (Text.ofString "go")) [privateWord, goBelow]).getD
      ((latest (bareKeyword? privateGo) [privateWord]).getD .pub) = .priv
    decide

end RubyDoc.Outline
