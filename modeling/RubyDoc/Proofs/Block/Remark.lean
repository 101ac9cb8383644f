import RubyDoc.Proofs.Block.Builder
import RubyDoc.Proofs.Outline.Remark

/-!
# Comments in the code do not matter

The documentation of a file is that of its code.  Comments that stand among the nodes of a tree,
anywhere and in any number, leave the list of definitions as it is, and for each definition what is
inferred and what a builder renders (`interchangeable_of_remarked`).  The comment above a definition
is another matter: it is read from the text, not from the tree, and the builder gets its lines.
-/

namespace RubyDoc.Block

open Syntax Outline Signature Analysis

/-- The same documentation for both definitions, under all settings and signatures, rendered by the
same lookups. -/
structure Interchangeable (src : Source) (d d' : Definition) : Prop where
  twin : d.node.Twin d'.node
  alike : ∀ s, Alike s src d src d'
  block_eq : ∀ b : Builder, b.source = src → ∀ indent, b.block d' indent = b.block d indent
  additions_eq : ∀ b : Builder, b.source = src → ∀ existing indent,
    b.additions d' existing indent = b.additions d existing indent

section Lines

variable {b : Builder} {d d' : Definition} (h : Alike b.settings b.source d b.source d')
  (hline : d'.node.line = d.node.line)
include h

theorem attributeBlock_eq_of_alike (access : Access) :
    b.attributeBlock d' access = b.attributeBlock d access := by
  simp only [Builder.attributeBlock_eq, h.keyOf_eq, h.writerKeyOf_eq, h.attributeLines_eq]

include hline

theorem settle_eq_of_alike (r : Except Trouble (List Text)) : b.settle d' r = b.settle d r := by
  cases r with
  | ok lines => rfl
  | error t =>
      rw [Builder.settle, Builder.settle, Builder.troubleLine, Builder.troubleLine, hline, h.id_eq]

theorem rawBlock_eq_of_alike : b.rawBlock d' = b.rawBlock d := by
  simp only [Builder.rawBlock, h.role, h.keyOf_eq, h.methodLines_eq,
    attributeBlock_eq_of_alike h, settle_eq_of_alike h hline]

theorem additions_eq_of_alike (existing : List Text) (indent : Text) :
    b.additions d' existing indent = b.additions d existing indent := by
  simp only [Builder.additions, h.role, h.name, h.keyOf_eq, h.missingTags_eq,
    attributeBlock_eq_of_alike h, settle_eq_of_alike h hline]

end Lines

theorem twin_of_cleared_eq {n n' : Node} (h : n'.cleared = n.cleared) : n.Twin n' where
  kind_eq := by rw [← Node.kind_cleared, h, Node.kind_cleared]
  startByte_eq := by rw [← Node.startByte_cleared, h, Node.startByte_cleared]
  endByte_eq := by rw [← Node.endByte_cleared, h, Node.endByte_cleared]

/-- Definitions whose nodes are one once cleared have the same documentation. -/
theorem interchangeable_of_mapNode_eq (src : Source) {d d' : Definition}
    (h : d'.mapNode Node.cleared = d.mapNode Node.cleared) : Interchangeable src d d' := by
  obtain ⟨node, name, container, scope, visibility, role⟩ := d
  obtain ⟨node', name', container', scope', visibility', role'⟩ := d'
  simp only [Definition.mapNode, Definition.mk.injEq] at h
  obtain ⟨hnode, rfl, rfl, rfl, rfl, rfl⟩ := h
  have halike : ∀ s, Alike s src ⟨node, name', container', scope', visibility', role'⟩ src
      ⟨node', name', container', scope', visibility', role'⟩ := fun s =>
    { Alike.refl s src ⟨node, name', container', scope', visibility', role'⟩ with
      returns := by
        rw [inferredReturns, inferredReturns, ← returnSpec_cleared, hnode, returnSpec_cleared]
      params := by
        rw [inferredParameters, inferredParameters, ← parameters_cleared, hnode,
          parameters_cleared]
      raised := by rw [← raisedTypes_cleared, hnode, raisedTypes_cleared] }
  have hline : node'.line = node.line := by
    rw [← Node.line_cleared, hnode, Node.line_cleared]
  refine ⟨twin_of_cleared_eq hnode, halike, ?_, ?_⟩
  · rintro b rfl indent
    rw [Builder.block, Builder.block, rawBlock_eq_of_alike (halike _) hline]
  · rintro b rfl existing indent
    exact additions_eq_of_alike (halike _) hline existing indent

/-- **Comments in the code do not matter.**  Trees that differ by any number of remarks have the
same definitions in the same order, and each is documented in the same way. -/
theorem interchangeable_of_remarked (src : Source) {root root' : Node}
    (h : Relation.ReflTransGen Node.Remarked root root') :
    List.Forall₂ (Interchangeable src) (definitions src root) (definitions src root') := by
  have hcleared := congrArg (definitions src) (Node.cleared_eq_of_remarked h)
  rw [definitions_cleared, definitions_cleared] at hcleared
  have hmaps := List.forall₂_eq_eq_eq ▸ hcleared
  rw [List.forall₂_map_left_iff, List.forall₂_map_right_iff] at hmaps
  exact hmaps.flip.imp fun d d' => interchangeable_of_mapNode_eq src

/-- A method with a comment among its parameters and one after its last statement. -/
def goWithRemarks : Source :=
  .ofText "def go(a # why\n)\n  raise E # always\nend\n"

/-- The comment among the parameters. -/
def whyRemark : Node :=
  ⟨.comment, none, 9, 14, 0, true, false, false, []⟩

/-- The comment in the body. -/
def alwaysRemark : Node :=
  ⟨.comment, none, 27, 35, 2, true, false, false, []⟩

/-- The parameters, followed by `remarks`. -/
def goParameters (remarks : List Node) : Node :=
  ⟨.other "method_parameters", some .parameters, 6, 16, 0, true, false, false,
    ⟨.identifier, none, 7, 8, 0, true, false, false, []⟩ :: remarks⟩

/-- The body, followed by `remarks`. -/
def goBody (remarks : List Node) : Node :=
  ⟨.body, some .body, 19, 35, 2, true, false, false,
    ⟨.call, none, 19, 26, 2, true, false, false,
      [⟨.identifier, some .method, 19, 24, 2, true, false, false, []⟩,
        ⟨.argumentList, some .arguments, 25, 26, 2, true, false, false,
          [⟨.constant, none, 25, 26, 2, true, false, false, []⟩]⟩]⟩ :: remarks⟩

/-- The file with the given parameters and body. -/
def goFile (parameters body : Node) : Node :=
  ⟨.program, none, 0, 40, 0, true, false, false,
    [⟨.method, none, 0, 39, 0, true, false, false,
      [⟨.identifier, some .name, 4, 6, 0, true, false, false, []⟩, parameters, body]⟩]⟩

/-- With both comments the method is documented as it is without them. -/
theorem interchangeable_of_remarked_go :
    Relation.ReflTransGen Node.Remarked (goFile (goParameters []) (goBody []))
        (goFile (goParameters [whyRemark]) (goBody [alwaysRemark])) ∧
      List.Forall₂ (Interchangeable goWithRemarks)
        (definitions goWithRemarks (goFile (goParameters []) (goBody [])))
        (definitions goWithRemarks
          (goFile (goParameters [whyRemark]) (goBody [alwaysRemark]))) := by
  have hparameters : Node.Remarked (goParameters []) (goParameters [whyRemark]) :=
    @Node.Remarked.here (goParameters []) whyRemark [_] [] rfl rfl
  have hbody : Node.Remarked (goBody []) (goBody [alwaysRemark]) :=
    @Node.Remarked.here (goBody []) alwaysRemark [_] [] rfl rfl
  have hfirst : Node.Remarked (goFile (goParameters []) (goBody []))
      (goFile (goParameters [whyRemark]) (goBody [])) :=
    @Node.Remarked.inside (goFile _ _) _ _ [] [] rfl
      (@Node.Remarked.inside ⟨.method, none, 0, 39, 0, true, false, false, _⟩ _ _ [_] [_] rfl
        hparameters)
  have hsecond : Node.Remarked (goFile (goParameters [whyRemark]) (goBody []))
      (goFile (goParameters [whyRemark]) (goBody [alwaysRemark])) :=
    @Node.Remarked.inside (goFile _ _) _ _ [] [] rfl
      (@Node.Remarked.inside ⟨.method, none, 0, 39, 0, true, false, false, _⟩ _ _ [_, _] [] rfl
        hbody)
  have hremarked := (Relation.ReflTransGen.single hfirst).tail hsecond
  exact ⟨hremarked, interchangeable_of_remarked goWithRemarks hremarked⟩

example :
    (definitions goWithRemarks (goFile (goParameters [whyRemark]) (goBody [alwaysRemark]))).map
      Definition.id = [Text.ofString "Object#go"] := by cbv

end RubyDoc.Block
