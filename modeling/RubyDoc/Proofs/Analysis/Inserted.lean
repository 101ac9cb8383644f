import Mathlib.Tactic.Common
import RubyDoc.Proofs.Analysis.Search
import RubyDoc.Proofs.Syntax.Related

/-!
# Code that is added

A tree may get a copy of some code at one more place (`Inserted`).  The copy is an expression of its
own there: it takes no role that a call, a clause or a path asks for, so every node around it names
the exceptions that it named before (`Like.ownErrors_eq`).  Two places are left out because code is
a name there: the list of a rescue clause, and the first argument of a `raise`.
-/

namespace RubyDoc.Analysis

open RubyDoc.Syntax Node

/-- The second node has the code of the first: a tree of the same form with the same text, wherever
it stands. -/
inductive SameCode (s s' : Source) : Node → Node → Prop
  | node {n n' : Node} (kind : n'.kind = n.kind) (field : n'.field = n.field)
      (isNamed : n'.isNamed = n.isNamed) (text : s'.textOf n' = s.textOf n)
      (children : List.Forall₂ (SameCode s s') n.children n'.children) : SameCode s s' n n'

/-- The fields by which calls, clauses and paths tell their children apart. -/
def roles : List Field :=
  [.name, .scope, .receiver, .method, .arguments, .exceptions, .body, .handler]

/-- Two nodes that differ in nothing but their places and what is below them.  Words are left out:
all that counts of them is their text. -/
structure SameHead (n n' : Node) : Prop where
  kind : n'.kind = n.kind
  field : n'.field = n.field
  isNamed : n'.isNamed = n.isNamed
  notWord : n.kind ≠ .constant ∧ n.kind ≠ .identifier

/-- The node without the children behind `before`. -/
def upTo (n : Node) (before : List Node) : Node :=
  { n with children := before }

/-- May code be added directly below the child `c` of `n`, behind the children of `x`?  It may not
become an exception that a clause lists or the first argument of a `raise`. -/
structure IsFree (s : Source) (n c x : Node) : Prop where
  notListed : n.kind = .rescue → c.field ≠ some .exceptions
  notRaised : c.field = some .arguments → raisedBy? s n = none ∨ x.code ≠ []

/-- The second tree is the first with `copy` added somewhere, maybe among punctuation.  The list is
the way to it: the nodes that it is below, each as far as the children before it. -/
inductive Inserted (s s' : Source) (copy : Node) : List Node → Node → Node → Prop
  | here {n n' : Node} {before before' added after after' : List Node} (hhead : SameHead n n')
      (hn : n.children = before ++ after) (hn' : n'.children = before' ++ (added ++ after'))
      (hbefore : List.Forall₂ (SameCode s s') before before')
      (hafter : List.Forall₂ (SameCode s s') after after')
      (hadded : added.filter isNamed = [copy])
      (hroles : ∀ c ∈ added, ∀ f ∈ roles, c.field ≠ some f) :
      Inserted s s' copy [upTo n before] n n'
  | inside {n n' c c' : Node} {before before' after after' path : List Node} (hhead : SameHead n n')
      (hn : n.children = before ++ c :: after) (hn' : n'.children = before' ++ c' :: after')
      (hbefore : List.Forall₂ (SameCode s s') before before')
      (hafter : List.Forall₂ (SameCode s s') after after')
      (hword : isWordOf n c = false) (hfree : ∀ x, path = [x] → IsFree s n c x)
      (h : Inserted s s' copy path c c') :
      Inserted s s' copy (upTo n before :: path) n n'

/-- What the search visits below the node before the place that the way leads to. -/
def searchedUpTo (x : Node) : List Node :=
  if x.kind = .rescueModifier then searchedBefore x else searchedChildren x

/-- The second method repeats an expression of the first: a copy of what the search reaches is added
behind it, as an expression of its own. -/
def Repeats (s s' : Source) (method method' : Node) : Prop :=
  ∃ path expression copy, Inserted s s' copy path method method' ∧
    SameCode s s' expression { copy with field := expression.field } ∧
    ∃ x ∈ path, ∃ c ∈ searchedUpTo x, Reaches c expression

/-! ## What the insertion keeps -/

/-- Corresponding nodes: of the same code, or with the copy inside. -/
def Like (s s' : Source) (copy n n' : Node) : Prop :=
  SameCode s s' n n' ∨ ∃ path, Inserted s s' copy path n n'

/-- Corresponding children of the node `n`. -/
def Below (s s' : Source) (copy n c c' : Node) : Prop :=
  SameCode s s' c c' ∨ ∃ path, Inserted s s' copy path c c' ∧ isWordOf n c = false ∧
    ∀ x, path = [x] → IsFree s n c x

section Kept

variable {s s' : Source} {copy n n' c c' : Node}

theorem Below.like (h : Below s s' copy n c c') : Like s s' copy c c' :=
  h.imp_right fun ⟨path, h, _⟩ => ⟨path, h⟩

theorem Inserted.sameHead {path : List Node} (h : Inserted s s' copy path n n') :
    SameHead n n' := by
  cases h <;> assumption

/-- What has no role is not found by one. -/
theorem find?_added {before added after : List Node}
    (hroles : ∀ c ∈ added, ∀ f ∈ roles, c.field ≠ some f) {f : Field} (hf : f ∈ roles) :
    ((before ++ (added ++ after)).find? fun c => c.field = some f) =
      (before ++ after).find? fun c => c.field = some f := by
  have hnone : added.find? (fun c => c.field = some f) = none :=
    List.find?_eq_none.2 fun c hc => by simpa using hroles c hc f hf
  rw [List.find?_append, List.find?_append, hnone, Option.none_or, List.find?_append]

namespace Like

variable (h : Like s s' copy n n')
include h

theorem kind_eq : n'.kind = n.kind := by
  rcases h with ⟨hkind, -, -, -, -⟩ | ⟨path, h⟩
  · exact hkind
  · exact h.sameHead.kind

theorem field_eq : n'.field = n.field := by
  rcases h with ⟨-, hfield, -, -, -⟩ | ⟨path, h⟩
  · exact hfield
  · exact h.sameHead.field

theorem isNamed_eq : n'.isNamed = n.isNamed := by
  rcases h with ⟨-, -, hnamed, -, -⟩ | ⟨path, h⟩
  · exact hnamed
  · exact h.sameHead.isNamed

theorem isCode_eq : n'.isCode = n.isCode := by
  rw [isCode, isCode, h.isNamed_eq, h.kind_eq]

/-- Words have the same text. -/
theorem textOf_eq (hword : n.kind = .constant ∨ n.kind = .identifier) :
    s'.textOf n' = s.textOf n := by
  rcases h with ⟨-, -, -, htext, -⟩ | ⟨path, h⟩
  · exact htext
  · obtain ⟨hconstant, hidentifier⟩ := h.sameHead.notWord
    exact absurd hword (not_or.2 ⟨hconstant, hidentifier⟩)

/-- Below the second node is nothing new with a role. -/
theorem exists_children : ∃ before added after, n'.children = before ++ (added ++ after) ∧
    (∀ c ∈ added, ∀ f ∈ roles, c.field ≠ some f) ∧
    List.Forall₂ (Below s s' copy n) n.children (before ++ after) := by
  have hsame : ∀ {cs cs' : List Node}, List.Forall₂ (SameCode s s') cs cs' →
      List.Forall₂ (Below s s' copy n) cs cs' := fun h => h.imp fun _ _ => Or.inl
  rcases h with ⟨-, -, -, -, hchildren⟩ | ⟨path, h⟩
  · exact ⟨[], [], n'.children, rfl, by simp, hsame hchildren⟩
  · cases h with
    | @here _ _ before before' added after after' hhead hn hn' hbefore hafter hadded hroles =>
        refine ⟨before', added, after', hn', hroles, ?_⟩
        rw [hn]
        exact List.rel_append (hsame hbefore) (hsame hafter)
    | @inside _ _ c c' before before' after after' path hhead hn hn' hbefore hafter hword hfree h =>
        refine ⟨before', [], c' :: after', hn', by simp, ?_⟩
        rw [hn]
        exact List.rel_append (hsame hbefore)
          (.cons (Or.inr ⟨path, h, hword, hfree⟩) (hsame hafter))

theorem child? {f : Field} (hf : f ∈ roles) :
    Option.Rel (Below s s' copy n) (n.child? f) (n'.child? f) := by
  obtain ⟨before, added, after, hn', hadded, hchildren⟩ := h.exists_children
  rw [Node.child?, Node.child?, hn', find?_added hadded hf]
  exact rel_find? (fun _ _ hc => by rw [hc.like.field_eq]) hchildren

theorem callName?_eq : s'.callName? n' = s.callName? n := by
  rw [Source.callName?, Source.callName?, h.kind_eq]
  split
  · rename_i hidentifier
    rw [h.textOf_eq (Or.inr hidentifier)]
  · split
    · rename_i hcall
      cases hmethod : n.child? .method with
      | none => rw [eq_none_of_rel (h.child? (by decide)) hmethod]; rfl
      | some word =>
          obtain ⟨word', hword', hbelow⟩ := exists_of_rel (h.child? (by decide)) hmethod
          have hfield : word.field = some .method := by simpa using List.find?_some hmethod
          rw [hword', Option.map_some, Option.map_some]
          rcases hbelow with ⟨-, -, -, htext, -⟩ | ⟨path, -, hnot, -⟩
          · rw [htext]
          · simp [isWordOf, hcall, hfield] at hnot
    · rfl

theorem isReceiverless_eq : n'.isReceiverless = n.isReceiverless := by
  rw [isReceiverless, isReceiverless, h.kind_eq, isNone_eq_of_rel (h.child? (by decide))]

end Like

/-! ## Constant paths -/

theorem scopePath?_eq_child? (s : Source) (n : Node) : scopePath? s n.children =
    match n.child? .scope with
    | some scope => (constantPath? s scope).map (· ++ pathSeparator)
    | none => some pathSeparator := by
  rw [Node.child?]
  induction n.children with
  | nil => rfl
  | cons c cs ih =>
      rw [scopePath?, List.find?_cons, ih]
      by_cases hc : c.field = some .scope <;> simp [hc]

theorem constantPath?_scopeResolution (s : Source) {n : Node} (hkind : n.kind = .scopeResolution) :
    constantPath? s n = (n.child? .name).bind fun last =>
      if last.kind = .constant then (scopePath? s n.children).map (· ++ s.textOf last)
      else none := by
  obtain ⟨kind, field, startByte, endByte, row, isNamed, isMissing, hasError, children⟩ := n
  obtain rfl : kind = .scopeResolution := hkind
  rw [constantPath?, Node.child?]
  cases children.find? fun c => c.field = some .name <;> rfl

theorem constantPath?_other (s : Source) {n : Node} (hconstant : n.kind ≠ .constant)
    (hscope : n.kind ≠ .scopeResolution) : constantPath? s n = none := by
  obtain ⟨kind, field, startByte, endByte, row, isNamed, isMissing, hasError, children⟩ := n
  cases kind <;> first | rfl | exact absurd rfl hconstant | exact absurd rfl hscope

theorem constantPath?_constant (s : Source) {n : Node} (hkind : n.kind = .constant) :
    constantPath? s n = some (s.textOf n) := by
  obtain ⟨kind, field, startByte, endByte, row, isNamed, isMissing, hasError, children⟩ := n
  obtain rfl : kind = .constant := hkind
  rfl

theorem Like.constantPath?_eq (h : Like s s' copy n n') :
    constantPath? s' n' = constantPath? s n := by
  induction hsize : sizeOf n using Nat.strongRecOn generalizing n n' with
  | ind size ih =>
    subst hsize
    by_cases hconstant : n.kind = .constant
    · rw [constantPath?_constant s hconstant, constantPath?_constant s' (h.kind_eq.trans hconstant),
        h.textOf_eq (Or.inl hconstant)]
    by_cases hpath : n.kind = .scopeResolution
    swap
    · rw [constantPath?_other s hconstant hpath,
        constantPath?_other s' (h.kind_eq ▸ hconstant) (h.kind_eq ▸ hpath)]
    have hscope : scopePath? s' n'.children = scopePath? s n.children := by
      rw [scopePath?_eq_child?, scopePath?_eq_child?]
      cases hchild : n.child? .scope with
      | none => rw [eq_none_of_rel (h.child? (by decide)) hchild]
      | some scope =>
          obtain ⟨scope', hchild', hbelow⟩ := exists_of_rel (h.child? (by decide)) hchild
          have hlt := sizeOf_lt_of_mem_children (mem_children_of_child? hchild)
          simp only [hchild', ih _ hlt hbelow.like rfl]
    rw [constantPath?_scopeResolution s hpath,
      constantPath?_scopeResolution s' (h.kind_eq.trans hpath), hscope]
    cases hchild : n.child? .name with
    | none => rw [eq_none_of_rel (h.child? (by decide)) hchild]; rfl
    | some last =>
        obtain ⟨last', hchild', hbelow⟩ := exists_of_rel (h.child? (by decide)) hchild
        rw [hchild', Option.bind_some, Option.bind_some, hbelow.like.kind_eq]
        split
        · rename_i hlast
          rw [hbelow.like.textOf_eq (Or.inl hlast)]
        · rfl

theorem Like.errorClass_eq (h : Like s s' copy n n') : errorClass s' n' = errorClass s n := by
  rw [errorClass, errorClass, h.constantPath?_eq]

/-! ## What the nodes name -/

/-- The code below corresponding children corresponds node by node, or else it does so up to the
copy, which stands directly below them. -/
theorem Below.code (h : Below s s' copy n c c') :
    List.Forall₂ (Like s s' copy) c.code c'.code ∨
      ∃ x x' : Node, IsFree s n c x ∧ List.Forall₂ (Like s s' copy) x.code x'.code ∧
        x.code <+: c.code ∧ x'.code <+: c'.code := by
  have hsame : ∀ {cs cs' : List Node}, List.Forall₂ (SameCode s s') cs cs' →
      List.Forall₂ (Like s s' copy) cs cs' := fun h => h.imp fun _ _ => Or.inl
  have hcode : ∀ {cs cs' : List Node}, List.Forall₂ (Like s s' copy) cs cs' →
      List.Forall₂ (Like s s' copy) (cs.filter isCode) (cs'.filter isCode) :=
    forall₂_filter fun _ _ h => h.isCode_eq
  rcases h with ⟨-, -, -, -, hchildren⟩ | ⟨path, h, -, hfree⟩
  · exact Or.inl (hcode (hsame hchildren))
  · cases h with
    | @here _ _ before before' added after after' _ hn hn' hbefore _ _ _ =>
        refine Or.inr ⟨upTo c before, upTo c' before', hfree _ rfl, hcode (hsame hbefore), ?_, ?_⟩
        · rw [Node.code, Node.code, hn, List.filter_append]
          exact List.prefix_append _ _
        · rw [Node.code, Node.code, hn', List.filter_append]
          exact List.prefix_append _ _
    | @inside _ _ d d' before before' after after' path _ hn hn' hbefore hafter _ _ h =>
        rw [Node.code, Node.code, hn, hn']
        exact Or.inl (hcode (List.rel_append (hsame hbefore)
          (.cons (Or.inr ⟨path, h⟩) (hsame hafter))))

theorem Like.handledErrors_eq (h : Like s s' copy n n') (hkind : n.kind = .rescue) :
    handledErrors s' n' = handledErrors s n := by
  have hlisted : List.Forall₂ (Like s s' copy) (n.codeOf .exceptions) (n'.codeOf .exceptions) := by
    rw [codeOf, codeOf]
    cases hlist : n.child? .exceptions with
    | none =>
        rw [eq_none_of_rel (h.child? (by decide)) hlist]
        exact .nil
    | some list =>
        obtain ⟨list', hlist', hbelow⟩ := exists_of_rel (h.child? (by decide)) hlist
        have hfield : list.field = some .exceptions := by simpa using List.find?_some hlist
        rw [hlist']
        rcases hbelow.code with hcode | ⟨x, -, hfree, -⟩
        · exact hcode
        · exact absurd hfield (hfree.notListed hkind)
  have hmap := map_eq_of_forall₂ (fun _ _ hc => hc.errorClass_eq) hlisted
  rw [handledErrors, handledErrors]
  generalize n.codeOf .exceptions = listed, n'.codeOf .exceptions = listed' at hlisted hmap
  cases hlisted with
  | nil => rfl
  | cons => exact hmap

theorem raisedBy?_eq_head? (s : Source) (n : Node) : raisedBy? s n =
    (s.callName? n).bind fun name =>
      if (name = Text.ofString "raise" ∨ name = Text.ofString "fail") ∧ n.isReceiverless then
        some ((n.arguments.head?.map (errorClass s)).getD defaultError)
      else none := by
  rw [raisedBy?]
  cases s.callName? n with
  | none => rfl
  | some name =>
      rw [Option.bind_some]
      cases n.arguments <;> rfl

/-- What raises an exception has its first argument still. -/
theorem Like.head?_arguments (h : Like s s' copy n n') (hraised : raisedBy? s n ≠ none) :
    Option.Rel (Like s s' copy) n.arguments.head? n'.arguments.head? := by
  rw [arguments, arguments, h.kind_eq]
  split
  swap
  · exact .none
  rw [codeOf, codeOf]
  cases hlist : n.child? .arguments with
  | none =>
      rw [eq_none_of_rel (h.child? (by decide)) hlist]
      exact .none
  | some list =>
      obtain ⟨list', hlist', hbelow⟩ := exists_of_rel (h.child? (by decide)) hlist
      have hfield : list.field = some .arguments := by simpa using List.find?_some hlist
      rw [hlist']
      show Option.Rel _ list.code.head? list'.code.head?
      rcases hbelow.code with hcode | ⟨x, x', hfree, hcode, ⟨rest, hrest⟩, ⟨rest', hrest'⟩⟩
      · exact rel_head? hcode
      · have hne : x.code ≠ [] := (hfree.notRaised hfield).resolve_left hraised
        have hne' : x'.code ≠ [] := fun hnil => hne (List.forall₂_nil_right_iff.1 (hnil ▸ hcode))
        rw [← hrest, ← hrest', List.head?_append_of_ne_nil _ hne,
          List.head?_append_of_ne_nil _ hne']
        exact rel_head? hcode

theorem Like.raisedBy?_eq (h : Like s s' copy n n') : raisedBy? s' n' = raisedBy? s n := by
  by_cases hraised : raisedBy? s n = none
  · rw [hraised]
    rw [raisedBy?_eq_head?] at hraised ⊢
    rw [h.callName?_eq, h.isReceiverless_eq]
    -- No word that raises: that does not depend on the arguments.
    cases hname : s.callName? n with
    | none => rfl
    | some name =>
        rw [hname, Option.bind_some, ite_eq_right_iff] at hraised
        rw [Option.bind_some, if_neg fun hword => nomatch hraised hword]
  · have hfirst := map_eq_of_rel (fun _ _ hc => hc.errorClass_eq) (h.head?_arguments hraised)
    rw [raisedBy?_eq_head?, raisedBy?_eq_head?, h.callName?_eq, h.isReceiverless_eq, hfirst]

theorem Like.ownErrors_eq (h : Like s s' copy n n') : ownErrors s' n' = ownErrors s n := by
  rw [ownErrors, ownErrors, h.kind_eq]
  cases hkind : n.kind
  case rescue => exact h.handledErrors_eq hkind
  case call | identifier => exact congrArg Option.toList h.raisedBy?_eq
  all_goals rfl

end Kept

end RubyDoc.Analysis
