import RubyDoc.Proofs.Analysis.Inserted
import RubyDoc.Proofs.Distinct

/-!
# Repeated code

The exceptions of a method are listed in the order in which they are first mentioned, and each of
them once: `exceptions_in_order_of_mention`.  A copy of an expression, added anywhere behind it,
mentions nothing that is not mentioned before (`Inserted.interposed`), so the list stays as it is.
-/

namespace RubyDoc.Analysis

open RubyDoc.Syntax Node

section Mentions

variable {s s' : Source} {copy n n' c c' : Node}

/-! ## What is mentioned -/

theorem isWordOf_eq (hkind : n'.kind = n.kind) : isWordOf n' = isWordOf n := by
  funext c
  rw [isWordOf, isWordOf, hkind]

theorem isWordOf_congr (hfield : c'.field = c.field) : isWordOf n c' = isWordOf n c := by
  rw [isWordOf, isWordOf, hfield]

namespace SameCode

theorem like (h : SameCode s s' n n') (copy : Node) : Like s s' copy n n' := Or.inl h

theorem field_eq (h : SameCode s s' n n') : n'.field = n.field := (h.like n).field_eq

theorem forall₂_searchedChildren (hkind : n'.kind = n.kind)
    (h : List.Forall₂ (SameCode s s') n.children n'.children) :
    List.Forall₂ (SameCode s s') (searchedChildren n) (searchedChildren n') := by
  rw [searchedChildren, searchedChildren, isWordOf_eq hkind]
  exact forall₂_filter (fun _ _ hc => (hc.like n).isNamed_eq)
    (forall₂_eraseP (fun _ _ hc => isWordOf_congr hc.field_eq) h)

theorem rel_field {cs cs' : List Node} (h : List.Forall₂ (SameCode s s') cs cs') (f : Field) :
    Option.Rel (SameCode s s') (cs.find? fun c => c.field = some f)
      (cs'.find? fun c => c.field = some f) :=
  rel_find? (fun _ _ hc => by rw [hc.field_eq]) h

theorem forall₂_searchedBefore (h : SameCode s s' n n') :
    List.Forall₂ (SameCode s s') (searchedBefore n) (searchedBefore n') := by
  obtain ⟨hkind, -, -, -, hchildren⟩ := h
  rw [searchedBefore, searchedBefore, hkind]
  split
  · exact forall₂_toList (rel_field hchildren .body)
  · exact .nil

theorem forall₂_searchedAfter (h : SameCode s s' n n') :
    List.Forall₂ (SameCode s s') (searchedAfter n) (searchedAfter n') := by
  obtain ⟨hkind, -, -, -, hchildren⟩ := h
  rw [searchedAfter, searchedAfter, hkind]
  split
  · exact forall₂_toList (rel_field hchildren .handler)
  · exact forall₂_searchedChildren hkind hchildren

/-- Nodes with the same code mention the same exceptions. -/
theorem raisedEvents_eq (h : SameCode s s' n n') : raisedEvents s' n' = raisedEvents s n := by
  induction hsize : sizeOf n using Nat.strongRecOn generalizing n n' with
  | ind size ih =>
    subst hsize
    have hbefore : ∀ c ∈ searchedBefore n, ∀ c', SameCode s s' c c' →
        raisedEvents s' c' = raisedEvents s c := fun c hc c' h =>
      ih _ (sizeOf_lt_of_mem_children (mem_children_of_searchedBefore hc)) h rfl
    have hafter : ∀ c ∈ searchedAfter n, ∀ c', SameCode s s' c c' →
        raisedEvents s' c' = raisedEvents s c := fun c hc c' h =>
      ih _ (sizeOf_lt_of_mem_children (mem_children_of_searchedAfter hc)) h rfl
    rw [Analysis.raisedEvents_eq s, Analysis.raisedEvents_eq s',
      flatMap_eq_of_forall₂ hbefore h.forall₂_searchedBefore,
      flatMap_eq_of_forall₂ hafter h.forall₂_searchedAfter, (h.like n).ownErrors_eq]

theorem flatMap_raisedEvents {cs cs' : List Node} (h : List.Forall₂ (SameCode s s') cs cs') :
    cs'.flatMap (raisedEvents s') = cs.flatMap (raisedEvents s) :=
  flatMap_eq_of_forall₂ (fun _ _ _ hc => hc.raisedEvents_eq) h

end SameCode

/-! ## Where the copy is mentioned -/

theorem raisedEvents_of_ne_modifier (s : Source) {n : Node} (hkind : n.kind ≠ .rescueModifier) :
    raisedEvents s n = ownErrors s n ++ (searchedChildren n).flatMap (raisedEvents s) := by
  rw [raisedEvents_eq, searchedBefore, searchedAfter, if_neg hkind, if_neg hkind]
  rfl

theorem raisedEvents_rescueModifier (s : Source) {n : Node} (hkind : n.kind = .rescueModifier) :
    raisedEvents s n = (n.child? .body).toList.flatMap (raisedEvents s) ++
      (defaultError :: (n.child? .handler).toList.flatMap (raisedEvents s)) := by
  rw [raisedEvents_eq, searchedBefore, searchedAfter, if_pos hkind, if_pos hkind, ownErrors, hkind]
  rfl

theorem isWordOf_eq_false (hroles : ∀ f ∈ roles, c.field ≠ some f) : isWordOf n c = false := by
  rw [isWordOf]
  split
  · exact decide_eq_false (hroles _ (by decide))
  · exact decide_eq_false (hroles _ (by decide))
  · exact decide_eq_false (hroles _ (by decide))
  · rfl

/-- Two lists of mentions differ by mentions of the copy, if by anything.  In front of these is
everything that is searched on the way to the copy. -/
def Interposed (s s' : Source) (copy : Node) (path : List Node) (events events' : List Text) :
    Prop :=
  ∃ above added below, events = above ++ below ∧ events' = above ++ (added ++ below) ∧
    (added = [] ∨ added = raisedEvents s' copy ∧
      ∀ x ∈ path, ∀ c ∈ searchedUpTo x, raisedEvents s c ⊆ above)

namespace Interposed

variable {path : List Node} {events events' : List Text}

theorem refl (events : List Text) : Interposed s s' copy path events events :=
  ⟨events, [], [], by simp, by simp, Or.inl rfl⟩

theorem frame (h : Interposed s s' copy path events events') {x : Node} {front : List Text}
    (hfront : ∀ c ∈ searchedUpTo x, raisedEvents s c ⊆ front) (back : List Text) :
    Interposed s s' copy (x :: path) (front ++ (events ++ back)) (front ++ (events' ++ back)) := by
  obtain ⟨above, added, below, rfl, rfl, hadded⟩ := h
  refine ⟨front ++ above, added, below ++ back, by simp, by simp, hadded.imp_right ?_⟩
  rintro ⟨rfl, habove⟩
  refine ⟨rfl, List.forall_mem_cons.2 ⟨fun c hc => ?_, fun y hy c hc => ?_⟩⟩
  · exact List.subset_append_of_subset_left _ (hfront c hc)
  · exact List.subset_append_of_subset_right _ (habove y hy c hc)

end Interposed

section Step

variable {before before' after after' : List Node}
  (hbefore : List.Forall₂ (SameCode s s') before before')
  (hafter : List.Forall₂ (SameCode s s') after after')
include hbefore hafter

/-- What is searched before a place and behind it, whatever stands there. -/
theorem exists_searchedChildren_append (hkind : n'.kind = n.kind) :
    ∃ rest rest', List.Forall₂ (SameCode s s') rest rest' ∧
      ∀ between, (∀ c ∈ between, isWordOf n c = false) →
        searchedChildren (upTo n (before ++ (between ++ after))) =
          searchedChildren (upTo n before) ++ (between.filter isNamed ++ rest) ∧
        searchedChildren (upTo n' (before' ++ (between ++ after'))) =
          searchedChildren (upTo n' before') ++ (between.filter isNamed ++ rest') := by
  obtain ⟨rest, rest', hrest, herase⟩ := exists_eraseP_append
    (fun _ _ hc => isWordOf_congr (n := n) hc.field_eq) hbefore hafter
  refine ⟨rest.filter isNamed, rest'.filter isNamed,
    forall₂_filter (fun _ _ hc => (hc.like n).isNamed_eq) hrest, fun between hnot => ?_⟩
  obtain ⟨hl, hr⟩ := herase between hnot
  have hword : isWordOf (upTo n' (before' ++ (between ++ after'))) = isWordOf n := isWordOf_eq hkind
  have hword' : isWordOf (upTo n' before') = isWordOf n := isWordOf_eq hkind
  simp only [searchedChildren, hword, hword', ← List.filter_append]
  exact ⟨congrArg (List.filter isNamed) hl, congrArg (List.filter isNamed) hr⟩

/-- What a node other than a rescue modifier mentions, around the nodes at a place below it. -/
theorem exists_events_append (h : Like s s' copy n n') (hmodifier : n.kind ≠ .rescueModifier) :
    ∃ front back, (∀ c ∈ searchedUpTo (upTo n before), raisedEvents s c ⊆ front) ∧
      ∀ between between',
        n.children = before ++ (between ++ after) → n'.children = before' ++ (between' ++ after') →
        (∀ c ∈ between, isWordOf n c = false) → (∀ c ∈ between', isWordOf n c = false) →
        raisedEvents s n =
          front ++ ((between.filter isNamed).flatMap (raisedEvents s) ++ back) ∧
        raisedEvents s' n' =
          front ++ ((between'.filter isNamed).flatMap (raisedEvents s') ++ back) := by
  obtain ⟨rest, rest', hrest, hchildren⟩ :=
    exists_searchedChildren_append hbefore hafter h.kind_eq
  have hfront : List.Forall₂ (SameCode s s') (searchedChildren (upTo n before))
      (searchedChildren (upTo n' before')) := SameCode.forall₂_searchedChildren h.kind_eq hbefore
  refine ⟨ownErrors s n ++ (searchedChildren (upTo n before)).flatMap (raisedEvents s),
    rest.flatMap (raisedEvents s), fun c hc error herror => ?_,
    fun between between' hn hn' hnot hnot' => ?_⟩
  · have hchildren : searchedUpTo (upTo n before) = searchedChildren (upTo n before) :=
      if_neg hmodifier
    exact List.mem_append_right _ (List.mem_flatMap.2 ⟨c, hchildren ▸ hc, herror⟩)
  · have hl : searchedChildren n = _ := hn ▸ (hchildren between hnot).1
    have hr : searchedChildren n' = _ := hn' ▸ (hchildren between' hnot').2
    rw [raisedEvents_of_ne_modifier s hmodifier,
      raisedEvents_of_ne_modifier s' (h.kind_eq ▸ hmodifier), hl, hr, h.ownErrors_eq]
    constructor <;> simp only [List.flatMap_append, SameCode.flatMap_raisedEvents hfront,
      SameCode.flatMap_raisedEvents hrest, List.append_assoc]

/-- Of a field's first child the copy is inside, or it is in both trees the same. -/
theorem child?_inside (hn : n.children = before ++ c :: after)
    (hn' : n'.children = before' ++ c' :: after') (hfield : c'.field = c.field) (f : Field) :
    Option.Rel (SameCode s s') (n.child? f) (n'.child? f) ∨
      c.field = some f ∧ n.child? f = some c ∧ n'.child? f = some c' ∧
        (upTo n before).child? f = none := by
  rw [Node.child?, Node.child?, hn, hn', List.find?_append, List.find?_append, List.find?_cons,
    List.find?_cons, hfield]
  cases hfront : before.find? fun c => c.field = some f with
  | some b =>
      obtain ⟨b', hfront', hb⟩ := exists_of_rel (SameCode.rel_field hbefore f) hfront
      rw [hfront']
      exact Or.inl (.some hb)
  | none =>
      rw [eq_none_of_rel (SameCode.rel_field hbefore f) hfront, Option.none_or, Option.none_or]
      by_cases hc : c.field = some f
      · rw [decide_eq_true hc]
        exact Or.inr ⟨hc, rfl, rfl, hfront⟩
      · rw [decide_eq_false hc]
        exact Or.inl (SameCode.rel_field hafter f)

end Step

/-- What a rescue modifier mentions if the copy is inside a child of it. -/
theorem interposed_rescueModifier {before before' after after' path : List Node}
    (hbefore : List.Forall₂ (SameCode s s') before before')
    (hafter : List.Forall₂ (SameCode s s') after after')
    (hkind : n.kind = .rescueModifier) (hkind' : n'.kind = n.kind)
    (hn : n.children = before ++ c :: after) (hn' : n'.children = before' ++ c' :: after')
    (hfield : c'.field = c.field)
    (h : Interposed s s' copy path (raisedEvents s c) (raisedEvents s' c')) :
    Interposed s s' copy (upTo n before :: path) (raisedEvents s n) (raisedEvents s' n') := by
  have hsame : ∀ {a a' : Option Node}, Option.Rel (SameCode s s') a a' →
      a'.toList.flatMap (raisedEvents s') = a.toList.flatMap (raisedEvents s) := fun h =>
    SameCode.flatMap_raisedEvents (forall₂_toList h)
  have hsearched : searchedUpTo (upTo n before) = ((upTo n before).child? .body).toList :=
    (if_pos hkind).trans (if_pos hkind)
  rw [raisedEvents_rescueModifier s hkind, raisedEvents_rescueModifier s' (hkind'.trans hkind)]
  -- The copy is inside the body, inside the handler, or in a child that is not searched.
  rcases child?_inside hbefore hafter hn hn' hfield .body with hbody | ⟨hc, hbody, hbody', hnone⟩
  · rw [hsame hbody]
    rcases child?_inside hbefore hafter hn hn' hfield .handler with
      hhandler | ⟨-, hhandler, hhandler', -⟩
    · rw [hsame hhandler]
      exact .refl _
    · -- What comes before the copy in the handler is the whole body.
      have hfront : ∀ b ∈ searchedUpTo (upTo n before), raisedEvents s b ⊆
          (n.child? .body).toList.flatMap (raisedEvents s) ++ [defaultError] := by
        intro b hb error herror
        rw [hsearched, Option.mem_toList] at hb
        have hfirst : n.child? .body = some b := by
          have hfind : before.find? (fun c => c.field = some .body) = some b := hb
          rw [Node.child?, hn, List.find?_append, hfind]
          rfl
        exact List.mem_append_left _
          (List.mem_flatMap.2 ⟨b, Option.mem_toList.2 hfirst, herror⟩)
      rw [hhandler, hhandler']
      simpa using h.frame hfront []
  · -- Nothing is searched before the body.
    have hfront : ∀ b ∈ searchedUpTo (upTo n before), raisedEvents s b ⊆ [] := by
      rw [hsearched, hnone]
      exact fun b hb => absurd hb List.not_mem_nil
    rcases child?_inside hbefore hafter hn hn' hfield .handler with hhandler | ⟨hc', -⟩
    · rw [hsame hhandler, hbody, hbody']
      simpa using h.frame hfront _
    · exact absurd (hc.symm.trans hc') (by decide)

/-- **The copy adds its mentions behind those of all that is searched before it.** -/
theorem Inserted.interposed {path : List Node} (h : Inserted s s' copy path n n') :
    Interposed s s' copy path (raisedEvents s n) (raisedEvents s' n') := by
  induction h with
  | @here n n' before before' added after after' hhead hn hn' hbefore hafter hadded hroles =>
      have hlike : Like s s' copy n n' :=
        Or.inr ⟨_, .here hhead hn hn' hbefore hafter hadded hroles⟩
      by_cases hmodifier : n.kind = .rescueModifier
      · -- Neither the body nor the handler is new.
        have hsame : ∀ f ∈ roles, (n'.child? f).toList.flatMap (raisedEvents s') =
            (n.child? f).toList.flatMap (raisedEvents s) := fun f hf => by
          rw [Node.child?, Node.child?, hn, hn', find?_added hroles hf]
          exact SameCode.flatMap_raisedEvents
            (forall₂_toList (SameCode.rel_field (List.rel_append hbefore hafter) f))
        rw [raisedEvents_rescueModifier s hmodifier,
          raisedEvents_rescueModifier s' (hhead.kind.trans hmodifier), hsame _ (by decide),
          hsame _ (by decide)]
        exact .refl _
      · obtain ⟨front, back, hfront, hevents⟩ :=
          exists_events_append hbefore hafter hlike hmodifier
        obtain ⟨hl, hr⟩ := hevents [] added hn hn' (by simp)
          fun c hc => isWordOf_eq_false (hroles c hc)
        rw [hl, hr, hadded]
        exact ⟨front, raisedEvents s' copy, back, rfl, by simp,
          Or.inr ⟨rfl, List.forall_mem_singleton.2 hfront⟩⟩
  | @inside n n' c c' before before' after after' path hhead hn hn' hbefore hafter hword hfree h
      ih =>
      have hlike : Like s s' copy n n' :=
        Or.inr ⟨_, .inside hhead hn hn' hbefore hafter hword hfree h⟩
      have hc : Like s s' copy c c' := Or.inr ⟨path, h⟩
      by_cases hmodifier : n.kind = .rescueModifier
      · exact interposed_rescueModifier hbefore hafter hmodifier hlike.kind_eq hn hn' hc.field_eq ih
      · obtain ⟨front, back, hfront, hevents⟩ :=
          exists_events_append hbefore hafter hlike hmodifier
        obtain ⟨hl, hr⟩ := hevents [c] [c'] hn hn' (by simpa using hword)
          (by simpa [isWordOf_congr hc.field_eq] using hword)
        rw [hl, hr]
        by_cases hnamed : c.isNamed
        · rw [List.filter_cons_of_pos hnamed, List.filter_cons_of_pos (hc.isNamed_eq.trans hnamed)]
          simpa using ih.frame hfront back
        · rw [List.filter_cons_of_neg hnamed, List.filter_cons_of_neg (hc.isNamed_eq ▸ hnamed)]
          exact .refl _

end Mentions

theorem raisedEvents_withField (s : Source) (n : Node) (field : Option Field) :
    raisedEvents s { n with field } = raisedEvents s n := by
  rw [raisedEvents_eq, raisedEvents_eq s n]
  rfl

/-- Repeated code finds no other exceptions, and in no other order. -/
theorem Repeats.raisedTypes_eq {s s' : Source} {method method' : Node}
    (h : Repeats s s' method method') : raisedTypes s' method' = raisedTypes s method := by
  obtain ⟨path, expression, copy, hinserted, hcopy, x, hx, c, hc, hreaches⟩ := h
  obtain ⟨above, added, below, hl, hr, hadded⟩ := hinserted.interposed
  have hsubset : added ⊆ above := by
    rcases hadded with rfl | ⟨rfl, habove⟩
    · exact List.nil_subset _
    · rw [← raisedEvents_withField s' copy, hcopy.raisedEvents_eq]
      exact List.Subset.trans (raisedEvents_subset s hreaches) (habove x hx c hc)
  rw [raisedTypes, raisedTypes, hl, hr, eraseDups_append_of_subset hsubset]

/-- **Exceptions are listed completely, once, and in the order of their first mention.**  The list
of a method has the first occurrences among what the visited nodes name, one node after the other.
So nothing is listed twice, and an exception is listed if and only if some node that the search
reaches names it.  An expression of the method that is repeated behind itself, at any depth, does
not change the list: the first mentions are still those of the original. -/
theorem exceptions_in_order_of_mention (s : Source) (method : Node) :
    raisedTypes s method = firstOccurrences ((visited method).flatMap (ownErrors s)) ∧
      (raisedTypes s method).Nodup ∧
      (∀ error, error ∈ raisedTypes s method ↔ ∃ n, Reaches method n ∧ error ∈ ownErrors s n) ∧
      ∀ (s' : Source) (method' : Node), Repeats s s' method method' →
        raisedTypes s' method' = raisedTypes s method := by
  refine ⟨?_, nodup_eraseDups _, fun error => mem_raisedTypes s,
    fun s' method' h => h.raisedTypes_eq⟩
  rw [raisedTypes, raisedEvents_eq_flatMap, eraseDups_eq_firstOccurrences]

/-- A method `m` that raises `A` once. -/
def onceRaising : Source :=
  .ofText "def m\n  raise A\nend"

/-- The method with the expression repeated. -/
def twiceRaising : Source :=
  .ofText "def m\n  raise A\n  raise A\nend"

/-- A node without children. -/
def leaf (kind : Kind) (field : Option Field) (isNamed : Bool) (start stop : Nat) : Node :=
  ⟨kind, field, start, stop, 0, isNamed, false, false, []⟩

/-- An expression `raise A`. -/
def raiseCall (start : Nat) : Node :=
  ⟨.call, none, start, start + 7, 0, true, false, false,
    [leaf .identifier (some .method) true start (start + 5),
      ⟨.argumentList, some .arguments, start + 6, start + 7, 0, true, false, false,
        [leaf .constant none true (start + 6) (start + 7)]⟩]⟩

/-- A body with these expressions. -/
def raisingBody (stop : Nat) (calls : List Node) : Node :=
  ⟨.body, some .body, 8, stop, 0, true, false, false, calls⟩

/-- The definition of `m`, with a body up to `stop`. -/
def raisingMethod (stop : Nat) (calls : List Node) : Node :=
  ⟨.method, none, 0, stop + 4, 0, true, false, false,
    [leaf (.other "def") none false 0 3, leaf .identifier (some .name) true 4 5,
      raisingBody stop calls, leaf (.other "end") none false (stop + 1) (stop + 4)]⟩

theorem sameCode_leaf {s s' : Source} {start stop start' stop' : Nat}
    (htext : s'.slice start' stop' = s.slice start stop) (kind : Kind) (field : Option Field)
    (isNamed : Bool) :
    SameCode s s' (leaf kind field isNamed start stop) (leaf kind field isNamed start' stop') :=
  .node rfl rfl rfl htext .nil

theorem sameCode_raiseCall {s s' : Source} {i j : Nat}
    (hcall : s'.slice j (j + 7) = s.slice i (i + 7))
    (hword : s'.slice j (j + 5) = s.slice i (i + 5))
    (hclass : s'.slice (j + 6) (j + 7) = s.slice (i + 6) (i + 7)) :
    SameCode s s' (raiseCall i) (raiseCall j) :=
  .node rfl rfl rfl hcall (.cons (sameCode_leaf hword ..)
    (.cons (.node rfl rfl rfl hclass (.cons (sameCode_leaf hclass ..) .nil)) .nil))

/-- Raising `A` once more adds nothing to what the method raises. -/
theorem exceptions_in_order_of_mention_twice :
    Repeats onceRaising twiceRaising (raisingMethod 15 [raiseCall 8])
        (raisingMethod 25 [raiseCall 8, raiseCall 18]) ∧
      raisedTypes twiceRaising (raisingMethod 25 [raiseCall 8, raiseCall 18]) =
        [Text.ofString "A"] := by
  have hfirst : SameCode onceRaising twiceRaising (raiseCall 8) (raiseCall 8) :=
    sameCode_raiseCall (by decide) (by decide) (by decide)
  have hcopy : SameCode onceRaising twiceRaising (raiseCall 8) (raiseCall 18) :=
    sameCode_raiseCall (by decide) (by decide) (by decide)
  have hbody : Inserted onceRaising twiceRaising (raiseCall 18)
      [upTo (raisingBody 15 [raiseCall 8]) [raiseCall 8]] (raisingBody 15 [raiseCall 8])
      (raisingBody 25 [raiseCall 8, raiseCall 18]) :=
    .here ⟨rfl, rfl, rfl, nofun, nofun⟩
      (show [raiseCall 8] = [raiseCall 8] ++ [] from rfl)
      (show [raiseCall 8, raiseCall 18] = [raiseCall 8] ++ ([raiseCall 18] ++ []) from rfl)
      (.cons hfirst .nil) .nil rfl (by decide)
  have hmethod : Inserted onceRaising twiceRaising (raiseCall 18) _
      (raisingMethod 15 [raiseCall 8]) (raisingMethod 25 [raiseCall 8, raiseCall 18]) :=
    .inside ⟨rfl, rfl, rfl, nofun, nofun⟩
      (show (raisingMethod 15 [raiseCall 8]).children =
        [leaf (.other "def") none false 0 3, leaf .identifier (some .name) true 4 5] ++
          raisingBody 15 [raiseCall 8] :: [leaf (.other "end") none false 16 19] from rfl)
      (show (raisingMethod 25 [raiseCall 8, raiseCall 18]).children =
        [leaf (.other "def") none false 0 3, leaf .identifier (some .name) true 4 5] ++
          raisingBody 25 [raiseCall 8, raiseCall 18] ::
            [leaf (.other "end") none false 26 29] from rfl)
      (.cons (sameCode_leaf (by decide) ..) (.cons (sameCode_leaf (by decide) ..) .nil))
      (.cons (sameCode_leaf (by decide) ..) .nil) rfl
      (fun _ _ => ⟨nofun, nofun⟩) hbody
  have hrepeats : Repeats onceRaising twiceRaising (raisingMethod 15 [raiseCall 8])
      (raisingMethod 25 [raiseCall 8, raiseCall 18]) :=
    ⟨_, raiseCall 8, raiseCall 18, hmethod, hcopy, _,
      List.mem_cons_of_mem _ List.mem_cons_self, raiseCall 8, List.mem_cons_self, .refl⟩
  refine ⟨hrepeats, ?_⟩
  rw [(exceptions_in_order_of_mention onceRaising _).2.2.2 twiceRaising _ hrepeats]
  rfl

end RubyDoc.Analysis
