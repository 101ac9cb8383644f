import RubyDoc.Proofs.Signature.Declaration
import RubyDoc.Proofs.Text.Record
import RubyDoc.Signature.Index

/-!
# Forests of declarations

What a signature file declares, as a tree: blocks with what is declared in them, interfaces with
their members, methods with their overloads, and attributes.  A forest is written with one
declaration a line, a line with `end` for each block, and any white space in front of a line; what
it declares is a list of signatures under their keys, by recursion on the tree and without regard to
lines.  The names and types of a forest are such that each of them can stand in its line.
-/

namespace RubyDoc.Signature

open Outline Text

/-! ## Types and names in a line -/

/-- Neither ends a line nor begins a comment. -/
def isLineSym (s : Sym) : Bool :=
  !s.satisfies isBreakChar && s ≠ .char '#'

theorem isLineSym_of_not_blank {s : Sym} (h : s.isBlank = false) (hcomment : s ≠ .char '#') :
    isLineSym s := by
  have hbreak : s.satisfies isBreakChar = false :=
    isUnbroken_of_not_blank (t := [s]) (by simpa using h) s (by simp)
  simp [isLineSym, hbreak, hcomment]

/-- A text that stays in one line and has no comment. -/
def IsInLine (t : Text) : Prop :=
  ∀ s ∈ t, isLineSym s

instance (t : Text) : Decidable (IsInLine t) :=
  inferInstanceAs (Decidable (∀ s ∈ t, _))

namespace IsInLine

variable {t u : Text}

theorem isUnbroken (h : IsInLine t) : IsUnbroken t := fun s hs => by
  have hs' := h s hs
  rw [isLineSym, Bool.and_eq_true, Bool.not_eq_true'] at hs'
  exact hs'.1

theorem append (ht : IsInLine t) (hu : IsInLine u) : IsInLine (t ++ u) := fun s hs =>
  (List.mem_append.1 hs).elim (ht s) (hu s)

end IsInLine

/-- A type, or a part of one, that a line holds.  As many brackets are closed in it as are opened.
Nothing is said about quotes. -/
structure InlineType where
  text : Text
  not_blank : isBlank text = false
  balanced : bracketDepth text = 0
  inLine : IsInLine text

/-- The name of a block: a path, perhaps anchored.  The word `end` closes blocks and names none. -/
structure BlockName where
  anchored : Bool
  path : Text
  head : path.head?.any Sym.isNameStart
  inPath : ∀ s ∈ path, isPathSym s
  ne_end : anchoredPath anchored path ≠ "end"

namespace BlockName

/-- The name as it is written. -/
def written (n : BlockName) : Text :=
  anchoredPath n.anchored n.path

theorem isPathSym_written (n : BlockName) : ∀ s ∈ n.written, isPathSym s :=
  isPathSym_anchoredPath n.inPath n.anchored

theorem path_ne_nil (n : BlockName) : n.path ≠ [] := by
  intro h
  have hhead := n.head
  rw [h] at hhead
  cases hhead

theorem written_ne_nil (n : BlockName) : n.written ≠ [] := by
  rw [written, anchoredPath]
  split
  · exact List.cons_ne_nil _ _
  · exact n.path_ne_nil

/-- The anchor of a name comes off. -/
theorem after?_written (n : BlockName) :
    after? "::" n.written = if n.anchored then some n.path else none := by
  rw [written, anchoredPath]
  split
  · exact after?_append _ _
  · refine after?_eq_none_of_head (fun hcolon => ?_) _
    have hhead := n.head
    rw [hcolon] at hhead
    exact absurd hhead (by decide)

theorem head_written (n : BlockName) :
    ((after? "::" n.written).getD n.written).head?.any Sym.isNameStart := by
  have hhead := n.head
  rw [after?_written, written, anchoredPath]
  split
  · exact hhead
  · exact hhead

/-- The names from the outermost block inward; an anchored name begins anew. -/
def within (names : List Text) (n : BlockName) : List Text :=
  if n.anchored then [n.path] else names ++ [n.path]

/-- The line that opens a block. -/
def opening (kind : BlockKind) (n : BlockName) : Text :=
  kind.keyword ++ " " ++ n.written

end BlockName

/-- The container that blocks of the given names make up. -/
def containerNamed : List Text → Text
  | [] => "Object"
  | name :: names => Text.join "::" (name :: names)

/-! ## Members -/

/-- The line that declares a member, up to the end of its type. -/
def declared (keyword receiver name : Text) (type : InlineType) : Text :=
  keyword ++ " " ++ receiver ++ name ++ ": " ++ type.text

theorem isInLine_declared {keyword receiver name : Text} (hkeyword : IsInLine keyword)
    (hreceiver : IsInLine receiver) (hname : IsInLine name) (type : InlineType) :
    IsInLine (declared keyword receiver name type) :=
  ((((hkeyword.append (u := " ") (by decide)).append hreceiver).append hname).append
    (u := ": ") (by decide)).append type.inLine

/-- Whose method is declared. -/
inductive Receiver where
  | absent
  | self
  /-- A function of a module, which its instances have too. -/
  | selfOrInstance
  deriving DecidableEq, Repr

namespace Receiver

/-- What stands before the name. -/
def written : Receiver → Text
  | absent => ""
  | self => "self."
  | selfOrInstance => "self?."

/-- The scopes of the method. -/
def scopes : Receiver → List Scope
  | absent => [.onInstance]
  | self => [.onClass]
  | selfOrInstance => [.onClass, .onInstance]

end Receiver

/-- A symbol of the name of a method. -/
def isMethodSym (s : Sym) : Bool :=
  !s.isBlank && s ∉ [Sym.char ':', .char '.', .char '#']

theorem isMethodSym_iff {s : Sym} :
    isMethodSym s ↔ s.isBlank = false ∧ s ≠ .char ':' ∧ s ≠ .char '.' ∧ s ≠ .char '#' := by
  simp [isMethodSym]

/-- A method and its overloads, the first of which stands in the line of the name. -/
structure MethodMember where
  receiver : Receiver
  name : Text
  type : InlineType
  overloads : List InlineType
  name_ne_nil : name ≠ []
  inName : ∀ s ∈ name, isMethodSym s

namespace MethodMember

/-- The line that declares the method. -/
def line (m : MethodMember) : Text :=
  declared "def" m.receiver.written m.name m.type

/-- The lines of the further overloads. -/
def overloadLines (m : MethodMember) : List Text :=
  m.overloads.map fun overload => "| " ++ overload.text

/-- The lines that declare the method. -/
def lines (m : MethodMember) : List Text :=
  m.line :: m.overloadLines

/-- The type of the method: what its lines say of it, with a space between lines. -/
def joinedType (m : MethodMember) : Text :=
  Text.join " " (m.type.text.trim :: m.overloadLines.map trim)

/-- What the method adds to the index, once for each scope. -/
def entries (collapse : Bool) (container : Text) (m : MethodMember) : Index :=
  m.receiver.scopes.map fun scope =>
    (⟨container, scope, m.name⟩, ofMethodType collapse m.joinedType)

end MethodMember

/-- An attribute. -/
structure AttributeMember where
  access : Access
  scope : Scope
  name : Text
  type : InlineType
  name_ne_nil : name ≠ []
  inName : ∀ s ∈ name, s.isWord

namespace AttributeMember

/-- The keyword of an attribute. -/
def keyword : Access → Text
  | .read => "attr_reader"
  | .write => "attr_writer"
  | .readWrite => "attr_accessor"

/-- The line that declares the attribute. -/
def line (a : AttributeMember) : Text :=
  declared (keyword a.access) (Declaration.attributeReceiver a.scope) a.name a.type

/-- What the attribute adds to the index: its reader, its writer, or both. -/
def entries (collapse : Bool) (container : Text) (a : AttributeMember) : Index :=
  let type := docType collapse a.type.text.trim
  (if a.access.reads then [(⟨container, a.scope, a.name⟩, { returnType := type })] else []) ++
    if a.access.writes then
      [(⟨container, a.scope, a.name ++ "="⟩,
        { returnType := type, paramTypes := [("value", type)] })]
    else []

end AttributeMember

/-- A member of a block. -/
inductive Member where
  | method (m : MethodMember)
  | attribute (a : AttributeMember)

namespace Member

/-- The lines that declare the member. -/
def lines : Member → List Text
  | .method m => m.lines
  | .attribute a => [a.line]

/-- What the member adds to the index. -/
def entries (collapse : Bool) (container : Text) : Member → Index
  | .method m => m.entries collapse container
  | .attribute a => a.entries collapse container

end Member

/-! ## Forests -/

/-- What a signature file declares: nothing, or a first declaration and a forest.  A block holds a
forest itself; an interface holds members only. -/
inductive Forest where
  | empty
  | member (m : Member) (rest : Forest)
  | interface (name : BlockName) (members : List Member) (rest : Forest)
  | block (kind : BlockKind) (hkind : kind ≠ .interface) (name : BlockName) (inner rest : Forest)

namespace Forest

/-- The lines of a forest, without the white space in front of them. -/
def lines : Forest → List Text
  | empty => []
  | member m rest => m.lines ++ rest.lines
  | interface name members rest =>
      name.opening .interface :: (members.flatMap Member.lines ++ ("end" : Text) :: rest.lines)
  | block kind _ name inner rest =>
      name.opening kind :: (inner.lines ++ ("end" : Text) :: rest.lines)

/-- The text of a forest, with white space in front of each line. -/
def render (margin : Nat → Text) (f : Forest) : Text :=
  closed (f.lines.mapIdx fun i line => margin i ++ line)

/-- What a forest declares within blocks of the given names. -/
def entries (collapse : Bool) : (names : List Text) → Forest → Index
  | _, empty => []
  | names, member m rest =>
      m.entries collapse (containerNamed names) ++ rest.entries collapse names
  | names, interface _ _ rest => rest.entries collapse names
  | names, block _ _ name inner rest =>
      inner.entries collapse (name.within names) ++ rest.entries collapse names

end Forest

/-! ## The lines of a forest as the reader sees them -/

theorem BlockName.not_blank (n : BlockName) : ∀ s ∈ n.written, s.isBlank = false := fun s hs =>
  isBlank_eq_false_of_isPathSym (n.isPathSym_written s hs)

theorem BlockName.isInLine_opening (kind : BlockKind) (n : BlockName) :
    IsInLine (n.opening kind) := by
  have hkeyword : IsInLine kind.keyword := by cases kind <;> decide
  refine (hkeyword.append (u := " ") (by decide)).append fun s hs => ?_
  refine isLineSym_of_not_blank (n.not_blank s hs) ?_
  rintro rfl
  exact absurd (n.isPathSym_written _ hs) (by decide)

theorem MethodMember.isInLine (m : MethodMember) : ∀ line ∈ m.lines, IsInLine line := by
  have hreceiver : IsInLine m.receiver.written := by cases m.receiver <;> decide
  have hname : IsInLine m.name := fun s hs => by
    obtain ⟨hblank, -, -, hcomment⟩ := isMethodSym_iff.1 (m.inName s hs)
    exact isLineSym_of_not_blank hblank hcomment
  intro line hline
  rcases List.mem_cons.1 hline with rfl | hline
  · exact isInLine_declared (by decide) hreceiver hname m.type
  · obtain ⟨overload, -, rfl⟩ := List.mem_map.1 hline
    exact IsInLine.append (t := "| ") (by decide) overload.inLine

theorem AttributeMember.isInLine (a : AttributeMember) : IsInLine a.line := by
  have hkeyword : IsInLine (keyword a.access) := by cases a.access <;> decide
  have hreceiver : IsInLine (Declaration.attributeReceiver a.scope) := by cases a.scope <;> decide
  have hname : IsInLine a.name := fun s hs => by
    refine isLineSym_of_not_blank (Sym.isBlank_eq_false_of_isWord (a.inName s hs)) ?_
    rintro rfl
    exact absurd (a.inName _ hs) (by decide)
  exact isInLine_declared hkeyword hreceiver hname a.type

theorem Member.isInLine (m : Member) : ∀ line ∈ m.lines, IsInLine line := by
  cases m with
  | method m => exact m.isInLine
  | «attribute» a => exact List.forall_mem_singleton.2 a.isInLine

theorem Forest.isInLine (f : Forest) : ∀ line ∈ f.lines, IsInLine line := by
  have hend : IsInLine "end" := by decide
  have henclosed {kind : BlockKind} {name : BlockName} {inner rest : List Text}
      (hinner : ∀ line ∈ inner, IsInLine line) (hrest : ∀ line ∈ rest, IsInLine line) :
      ∀ line ∈ name.opening kind :: (inner ++ ("end" : Text) :: rest), IsInLine line := by
    simp only [List.forall_mem_cons, List.forall_mem_append]
    exact ⟨name.isInLine_opening kind, hinner, hend, hrest⟩
  induction f with
  | empty => exact List.forall_mem_nil _
  | member m rest ih => exact List.forall_mem_append.2 ⟨m.isInLine, ih⟩
  | interface name members rest ih =>
      refine henclosed (fun line hline => ?_) ih
      obtain ⟨m, -, hm⟩ := List.mem_flatMap.1 hline
      exact m.isInLine line hm
  | block kind _ name inner rest ihInner ihRest => exact henclosed ihInner ihRest

theorem beforeComment_of_notMem {t : Text} (h : .char '#' ∉ t) (l : Level) :
    beforeComment l t = t := by
  induction t generalizing l with
  | nil => rfl
  | cons s t ih =>
      rw [List.mem_cons, not_or] at h
      rw [beforeComment, if_neg fun hs => h.1 hs.2.symm, ih h.2]

theorem withoutComment_of_isInLine {t : Text} (h : IsInLine t) : withoutComment t = t :=
  beforeComment_of_notMem (fun hmem => absurd (h _ hmem) (by decide)) {}

/-- The reader takes the lines of a forest without what stands in front of them. -/
theorem Forest.read_render {margin : Nat → Text} (f : Forest)
    (hmargin : ∀ i, isBlank (margin i) ∧ IsUnbroken (margin i)) :
    ((f.render margin).records.map fun line => (withoutComment line).trim) = f.lines.map trim := by
  have hmarginLine (i : Nat) : IsInLine (margin i) := fun s hs => by
    have hblank : s.isBlank := List.all_eq_true.1 (hmargin i).1 s hs
    have hcomment : s ≠ .char '#' := by
      rintro rfl
      exact absurd hblank (by decide)
    simp [isLineSym, (hmargin i).2 s hs, hcomment]
  have hline (i : Nat) {line : Text} (h : line ∈ f.lines) : IsInLine (margin i ++ line) :=
    (hmarginLine i).append (f.isInLine line h)
  rw [render, records_closed]
  · refine List.ext_getElem (by simp) fun i hi hi' => ?_
    have hi'' : i < f.lines.length := by simpa using hi'
    rw [List.getElem_map, List.getElem_map, List.getElem_mapIdx,
      withoutComment_of_isInLine (hline i (List.getElem_mem hi'')), trim_append_left (hmargin i).1]
  · intro line h
    obtain ⟨i, hi, rfl⟩ := List.mem_mapIdx.1 h
    exact (hline i (List.getElem_mem hi)).isUnbroken

/-! ## Members as the reader sees them -/

theorem Receiver.mem_receivers (r : Receiver) : (r.written, r.scopes) ∈ Declaration.receivers := by
  cases r <;> decide

theorem AttributeMember.mem_attributeKeywords (access : Access) :
    (keyword access, access) ∈ Declaration.attributeKeywords := by
  cases access <;> decide

theorem BlockName.trim_opening (kind : BlockKind) (n : BlockName) :
    trim (n.opening kind) = kind.keyword ++ .char ' ' :: n.written := by
  have hkeyword : IsTrimmed kind.keyword := by
    cases kind <;> exact ⟨by decide, by decide, by decide⟩
  have hwritten : IsTrimmed n.written := .of_not_blank n.written_ne_nil n.not_blank
  rw [opening, (hkeyword.append hwritten " ").trim_eq, List.append_assoc]
  rfl

theorem BlockName.ofLine_opening (kind : BlockKind) (n : BlockName) :
    Declaration.ofLine (trim (n.opening kind)) = .opening ⟨kind, n.written⟩ false := by
  rw [n.trim_opening]
  exact Declaration.ofLine_opening kind n.head_written n.isPathSym_written n.ne_end

/-- Without what is around it, the line of a member ends with the trimmed type. -/
theorem exists_trim_declared {keyword : Text} (hkeyword : IsTrimmed keyword)
    (receiver name : Text) (type : InlineType) :
    ∃ w, isBlank w ∧ trim (declared keyword receiver name type) =
      keyword ++ .char ' ' :: (receiver ++ (name ++ .char ':' :: (w ++ type.text.trim))) := by
  obtain ⟨w, hw, htrim⟩ := exists_trim_append hkeyword
    (.char ' ' :: (receiver ++ name ++ [.char ':', .char ' '])) type.not_blank
  refine ⟨.char ' ' :: w, ?_, ?_⟩
  · rw [isBlank, List.all_cons]
    exact hw
  · calc trim (declared keyword receiver name type)
        = trim (keyword ++ .char ' ' :: (receiver ++ name ++ [.char ':', .char ' ']) ++
            type.text) := by
          simp [declared, Text.ofString]
      _ = keyword ++ .char ' ' :: (receiver ++ (name ++ .char ':' ::
            (.char ' ' :: w ++ type.text.trim))) := by
          rw [htrim]
          simp

theorem MethodMember.ofLine_line (m : MethodMember) :
    Declaration.ofLine (trim m.line) = .method m.receiver.scopes m.name m.type.text.trim := by
  have hdef : IsTrimmed (Text.ofString "def") := ⟨by decide, by decide, by decide⟩
  obtain ⟨w, hw, htrim⟩ := exists_trim_declared hdef m.receiver.written m.name m.type
  have hname : ∀ s ∈ m.name, s.isBlank = false ∧ s ≠ .char ':' ∧ s ≠ .char '.' := fun s hs =>
    have hs := isMethodSym_iff.1 (m.inName s hs)
    ⟨hs.1, hs.2.1, hs.2.2.1⟩
  rw [line, htrim]
  exact Declaration.ofLine_method m.receiver.mem_receivers m.name_ne_nil hname hw
    (isTrimmed_trim (trim_ne_nil m.type.not_blank)).head

theorem AttributeMember.ofLine_line (a : AttributeMember) :
    Declaration.ofLine (trim a.line) = .attribute a.access a.scope a.name a.type.text.trim := by
  have hkeyword : IsTrimmed (keyword a.access) := by
    cases a.access <;> exact ⟨by decide, by decide, by decide⟩
  obtain ⟨w, hw, htrim⟩ := exists_trim_declared hkeyword
    (Declaration.attributeReceiver a.scope) a.name a.type
  rw [line, htrim]
  exact Declaration.ofLine_attribute (mem_attributeKeywords a.access) a.scope a.name_ne_nil a.inName
    hw (isTrimmed_trim (trim_ne_nil a.type.not_blank))

theorem MethodMember.joinedType_ne_nil (m : MethodMember) : m.joinedType ≠ [] := by
  have hne := trim_ne_nil m.type.not_blank
  intro hnil
  have hhead := TypeExpr.head?_join " " _ hne (m.overloadLines.map trim)
  rw [← joinedType, hnil] at hhead
  exact hne (List.head?_eq_none_iff.1 hhead.symm)

theorem MethodMember.bracketDepth_joinedType (m : MethodMember) :
    bracketDepth m.joinedType = 0 := by
  refine bracketDepth_join rfl (List.forall_mem_cons.2 ⟨?_, fun line hline => ?_⟩)
  · rw [bracketDepth_trim, m.type.balanced]
  · obtain ⟨raw, hraw, rfl⟩ := List.mem_map.1 hline
    obtain ⟨overload, -, rfl⟩ := List.mem_map.1 hraw
    rw [bracketDepth_trim, bracketDepth_append, overload.balanced]
    rfl

theorem MethodMember.startsWith_bar (m : MethodMember) :
    ∀ line ∈ m.overloadLines.map trim, line.startsWith "|" := by
  have hbar : IsTrimmed (Text.ofString "|") := ⟨by decide, by decide, by decide⟩
  intro line hline
  obtain ⟨raw, hraw, rfl⟩ := List.mem_map.1 hline
  obtain ⟨overload, -, rfl⟩ := List.mem_map.1 hraw
  obtain ⟨w, -, htrim⟩ := exists_trim_append hbar " " overload.not_blank
  exact startsWith_iff.2 ⟨_, htrim.trans (List.append_assoc ..)⟩

/-- Does the line open or close a block? -/
def Declaration.isOfBlock : Declaration → Bool
  | .opening _ _ | .closing => true
  | .method _ _ _ | .attribute _ _ _ _ | .other => false

theorem Member.isOfBlock_eq_false (m : Member) :
    ∀ line ∈ m.lines.map trim, (Declaration.ofLine line).isOfBlock = false := by
  cases m with
  | method m =>
      refine List.forall_mem_cons.2 ⟨by rw [m.ofLine_line]; rfl, fun line hline => ?_⟩
      obtain ⟨rest, rfl⟩ := startsWith_iff.1 (m.startsWith_bar line hline)
      rw [Declaration.ofLine_bar]
      rfl
  | «attribute» a =>
      refine List.forall_mem_singleton.2 ?_
      rw [a.ofLine_line]
      rfl

theorem Member.head_lines (m : Member) :
    ∀ line, (m.lines.map trim).head? = some line → line.startsWith "|" = false := by
  intro line hline
  refine Declaration.startsWith_bar_eq_false ?_
  cases m with
  | method m =>
      obtain rfl := Option.some.inj hline
      rw [m.ofLine_line]
      exact Declaration.noConfusion
  | «attribute» a =>
      obtain rfl := Option.some.inj hline
      rw [a.ofLine_line]
      exact Declaration.noConfusion

end RubyDoc.Signature
