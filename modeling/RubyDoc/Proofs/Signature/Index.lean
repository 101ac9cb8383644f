import RubyDoc.Proofs.Signature.Forest
import RubyDoc.Proofs.Signature.TypeText

/-!
# Reading a file of declarations

The reader goes through a file line by line, with a stack of open blocks and perhaps a method whose
type may go on.  It adds to the index what the file declares as a tree, and nothing else: `Reads`
says of some lines that they leave the stack as it was and add the given entries, once the method
that is open at their end is closed.  This is closed under putting lines below each other, since a
complete type goes on only in a line that begins with a bar, and under putting a block around lines.
-/

namespace RubyDoc.Signature

open Outline Text

/-! ## Adding to an index -/

namespace Index

/-- Adds signatures in order, the first one under each key. -/
def addAll (index entries : Index) : Index :=
  entries.foldl (fun index entry => index.add entry.1 entry.2) index

theorem addAll_append (index entries more : Index) :
    index.addAll (entries ++ more) = (index.addAll entries).addAll more :=
  List.foldl_append

theorem prefix_add (index : Index) (key : Key) (sig : Signature) : index <+: index.add key sig := by
  rw [add]
  split
  · exact List.prefix_rfl
  · exact List.prefix_append _ _

/-- What is in the index stays there, under its key and in its place. -/
theorem prefix_addAll (index entries : Index) : index <+: index.addAll entries := by
  induction entries generalizing index with
  | nil => exact List.prefix_rfl
  | cons entry entries ih => exact (prefix_add index entry.1 entry.2).trans (ih _)

theorem lookup_add (index : Index) (entry : Key × Signature) (key : Key) :
    (index.add entry.1 entry.2).lookup key = (index.lookup key).or ([entry].lookup key) := by
  rw [add]
  split
  · rename_i hsome
    by_cases hkey : key = entry.1
    · obtain ⟨sig, hsig⟩ := Option.isSome_iff_exists.1 hsome
      rw [hkey, hsig, Option.some_or]
    · have hnone : [entry].lookup key = none := by
        refine List.lookup_eq_none_iff.2 fun e he => ?_
        obtain rfl := List.mem_singleton.1 he
        exact bne_iff_ne.2 hkey
      rw [hnone, Option.or_none]
  · exact List.lookup_append

/-- Of several signatures under one key the first one counts. -/
theorem lookup_addAll (index entries : Index) (key : Key) :
    (index.addAll entries).lookup key = (index.lookup key).or (entries.lookup key) := by
  induction entries generalizing index with
  | nil => exact Option.or_none.symm
  | cons entry entries ih =>
      calc ((index.add entry.1 entry.2).addAll entries).lookup key
          = ((index.lookup key).or ([entry].lookup key)).or (entries.lookup key) := by
            rw [ih, lookup_add]
        _ = (index.lookup key).or ((entry :: entries).lookup key) := by
            rw [Option.or_assoc, ← List.lookup_append, List.singleton_append]

end Index

/-! ## Methods that are open -/

/-- A type that is there and has no open brackets. -/
structure OpenMethod.IsComplete (m : OpenMethod) : Prop where
  type_ne_nil : m.type ≠ []
  depth : bracketDepth m.type = 0

theorem OpenMethod.IsComplete.goesOn_eq {m : OpenMethod} (h : m.IsComplete) (line : Text) :
    m.goesOn line = line.startsWith "|" := by
  have hempty : m.type.isEmpty = false := by simpa using h.type_ne_nil
  simp [goesOn, hempty, h.depth]

namespace Reader

variable {collapse : Bool} {index : Index} {blocks : List Block}

/-- A method that is open has a complete type. -/
def IsComplete (r : Reader) : Prop :=
  ∀ m, r.method = some m → m.IsComplete

theorem foldl_addMember (scopes : List Scope) (name : Text) (sig : Signature) (r : Reader) :
    scopes.foldl (fun r scope => r.addMember scope name sig) r =
      ⟨r.index.addAll (scopes.map fun scope => (⟨r.container, scope, name⟩, sig)), r.blocks,
        r.method⟩ := by
  induction scopes generalizing r with
  | nil => rfl
  | cons scope scopes ih =>
      rw [List.foldl_cons, ih]
      rfl

theorem closeMethod_some (m : OpenMethod) :
    (⟨index, blocks, some m⟩ : Reader).closeMethod collapse =
      ⟨index.addAll (m.scopes.map fun scope =>
        (⟨containerOf (blocks.reverse.map Block.name), scope, m.name⟩,
          ofMethodType collapse m.type)), blocks, none⟩ :=
  foldl_addMember ..

/-- A line that does not begin with a bar finds the method before it closed. -/
theorem readLine_closeMethod {r : Reader} (h : r.IsComplete) {line : Text}
    (hline : line.startsWith "|" = false) :
    r.readLine collapse line = (r.closeMethod collapse).readLine collapse line := by
  obtain ⟨index, blocks, method⟩ := r
  cases method with
  | none => rfl
  | some m =>
      have hgoes : m.goesOn line = false := by rw [(h m rfl).goesOn_eq, hline]
      rw [readLine, closeMethod_some]
      simp only [hgoes, if_neg Bool.false_ne_true]
      rfl

/-- Lines that begin with a bar go on with the type. -/
theorem foldl_readLine_overloads {lines : List Text} (h : ∀ line ∈ lines, line.startsWith "|")
    (m : OpenMethod) :
    lines.foldl (readLine collapse) ⟨index, blocks, some m⟩ =
      ⟨index, blocks, some { m with type := Text.join " " (m.type :: lines) }⟩ := by
  induction lines generalizing m with
  | nil => rfl
  | cons line lines ih =>
      obtain ⟨hline, hlines⟩ := List.forall_mem_cons.1 h
      have hgoes : m.goesOn line := by rw [OpenMethod.goesOn, hline, Bool.or_true]
      have hstep : (⟨index, blocks, some m⟩ : Reader).readLine collapse line =
          ⟨index, blocks, some (m.extend line)⟩ := by
        rw [readLine]
        simp only [hgoes, if_true]
      rw [List.foldl_cons, hstep, ih hlines]
      cases lines with
      | nil => rfl
      | cons next lines => simp [OpenMethod.extend, Text.join]

end Reader

/-! ## Reading some lines of a file -/

namespace Reader

variable {collapse : Bool}

/-- Where the reading stands behind some lines of a file. -/
def behind (collapse : Bool) (index : Index) (lines : List Text) : Reader :=
  (lines.map fun line => trim (withoutComment line)).foldl (readLine collapse) { index }

theorem behind_append (index : Index) (above lines : List Text) :
    behind collapse index (above ++ lines) =
      (lines.map fun line => trim (withoutComment line)).foldl (readLine collapse)
        (behind collapse index above) := by
  rw [behind, List.map_append, List.foldl_append]
  rfl

end Reader

/-! ## What is in the index stays there -/

namespace Reader

variable (collapse : Bool) (r : Reader)

theorem prefix_closeMethod : r.index <+: (r.closeMethod collapse).index := by
  obtain ⟨index, blocks, method⟩ := r
  cases method with
  | none => exact List.prefix_rfl
  | some m =>
      rw [closeMethod_some]
      exact Index.prefix_addAll _ _

theorem prefix_declare (d : Declaration) : r.index <+: (r.declare collapse d).index := by
  cases d with
  | opening block closed =>
      simp only [declare]
      split <;> exact List.prefix_rfl
  | closing | other => exact List.prefix_rfl
  | method scopes name type =>
      simp only [declare]
      split <;> exact List.prefix_rfl
  | «attribute» access scope name type =>
      simp only [declare]
      split
      · exact List.prefix_rfl
      · -- Both the reader and the writer are added at the end.
        simp only [addAttribute]
        split <;> split
        · exact (Index.prefix_add _ _ _).trans (Index.prefix_add _ _ _)
        · exact Index.prefix_add _ _ _
        · exact Index.prefix_add _ _ _
        · exact List.prefix_rfl

theorem prefix_readLine (line : Text) : r.index <+: (r.readLine collapse line).index := by
  unfold readLine
  split
  · split
    · exact List.prefix_rfl
    · exact (r.prefix_closeMethod collapse).trans (prefix_declare collapse _ _)
  · exact r.prefix_declare collapse _

theorem prefix_foldl (lines : List Text) :
    r.index <+: (lines.foldl (readLine collapse) r).index := by
  induction lines generalizing r with
  | nil => exact List.prefix_rfl
  | cons line lines ih => exact (r.prefix_readLine collapse line).trans (ih _)

end Reader

theorem Index.lookup_of_prefix {index more : Index} (h : index <+: more) {key : Key}
    {sig : Signature} (hsig : index.lookup key = some sig) : more.lookup key = some sig := by
  obtain ⟨added, rfl⟩ := h
  rw [List.lookup_append, hsig, Option.some_or]

/-! ## Lines that add entries -/

/-- Within the open blocks the lines add the entries, and no block is open or closed in the end that
was not before.  The first line does not go on with what is above it. -/
structure Reads (collapse : Bool) (blocks : List Block) (lines : List Text) (entries : Index) :
    Prop where
  head : ∀ line, lines.head? = some line → line.startsWith "|" = false
  complete : ∀ index, (lines.foldl (Reader.readLine collapse) ⟨index, blocks, none⟩).IsComplete
  closed : ∀ index, (lines.foldl (Reader.readLine collapse) ⟨index, blocks, none⟩).closeMethod
    collapse = ⟨index.addAll entries, blocks, none⟩

namespace Reads

variable {collapse : Bool} {blocks : List Block} {lines more : List Text} {entries others : Index}

/-- Lines that leave no method open. -/
theorem of_foldl (head : ∀ line, lines.head? = some line → line.startsWith "|" = false)
    (hrun : ∀ index, lines.foldl (Reader.readLine collapse) ⟨index, blocks, none⟩ =
      ⟨index.addAll entries, blocks, none⟩) : Reads collapse blocks lines entries where
  head := head
  complete index m hm := by
    rw [hrun] at hm
    cases hm
  closed index := by
    rw [hrun]
    rfl

theorem nil : Reads collapse blocks [] [] :=
  .of_foldl (fun _ h => by cases h) fun _ => rfl

/-- The next line finds all entries in the index. -/
theorem readLine (h : Reads collapse blocks lines entries) {line : Text}
    (hline : line.startsWith "|" = false) (index : Index) :
    (lines.foldl (Reader.readLine collapse) ⟨index, blocks, none⟩).readLine collapse line =
      (⟨index.addAll entries, blocks, none⟩ : Reader).readLine collapse line := by
  rw [Reader.readLine_closeMethod (h.complete index) hline, h.closed]

theorem append (h : Reads collapse blocks lines entries)
    (hmore : Reads collapse blocks more others) :
    Reads collapse blocks (lines ++ more) (entries ++ others) := by
  cases more with
  | nil =>
      -- A method stays open, since no line follows that closes it.
      have hothers (index : Index) : index.addAll others = index :=
        (congrArg Reader.index (hmore.closed index)).symm
      refine ⟨?_, ?_, fun index => ?_⟩
      · rw [List.append_nil]
        exact h.head
      · rw [List.append_nil]
        exact h.complete
      · rw [List.append_nil, h.closed, Index.addAll_append, hothers]
  | cons line more =>
      -- The first line below closes the method that is open above it, if there is one.
      have hline := hmore.head line rfl
      have hrun (index : Index) :
          (lines ++ line :: more).foldl (Reader.readLine collapse) ⟨index, blocks, none⟩ =
            (line :: more).foldl (Reader.readLine collapse)
              ⟨index.addAll entries, blocks, none⟩ := by
        rw [List.foldl_append, List.foldl_cons, h.readLine hline, List.foldl_cons]
      refine ⟨fun first hfirst => ?_, fun index => ?_, fun index => ?_⟩
      · cases lines with
        | nil => exact hmore.head first hfirst
        | cons l lines => exact h.head first hfirst
      · rw [hrun]
        exact hmore.complete _
      · rw [hrun, hmore.closed, Index.addAll_append]

/-- A block around the lines. -/
theorem enclosed {block : Block} {line : Text}
    (hline : Declaration.ofLine line = .opening block false)
    (h : Reads collapse (block :: blocks) lines entries) :
    Reads collapse blocks (line :: (lines ++ [Text.ofString "end"])) entries := by
  have hend : (Text.ofString "end").startsWith "|" = false := rfl
  refine .of_foldl (fun first hfirst => ?_) fun index => ?_
  · obtain rfl := Option.some.inj hfirst
    exact Declaration.startsWith_bar_eq_false (by rw [hline]; exact Declaration.noConfusion)
  · have hopen : (⟨index, blocks, none⟩ : Reader).readLine collapse line =
        ⟨index, block :: blocks, none⟩ := by
      rw [Reader.readLine, hline]
      rfl
    rw [List.foldl_cons, hopen, List.foldl_append, List.foldl_cons, h.readLine hend,
      Reader.readLine, Declaration.ofLine_end]
    rfl

end Reads

/-! ## Members of blocks -/

/-- The open blocks make up the container of the given names, and are not an interface. -/
structure Encloses (blocks : List Block) (names : List Text) : Prop where
  path : (blocks.reverse.map Block.name).foldl Reader.enterPath [] = Text.join "::" names
  ne_nil : ∀ name ∈ names, name ≠ []
  outside : (blocks.head?.any fun b => b.kind = .interface) = false

namespace Encloses

variable {blocks : List Block} {names : List Text}

theorem top : Encloses [] [] :=
  ⟨rfl, List.forall_mem_nil _, rfl⟩

theorem container (h : Encloses blocks names) :
    Reader.containerOf (blocks.reverse.map Block.name) = containerNamed names := by
  rw [Reader.containerOf, h.path]
  cases names with
  | nil => rfl
  | cons name names =>
      have hne := join_ne_nil "::" (List.cons_ne_nil name names) h.ne_nil
      rw [if_neg (by simpa using hne)]
      rfl

theorem enter (h : Encloses blocks names) {kind : BlockKind} (hkind : kind ≠ .interface)
    (n : BlockName) : Encloses (⟨kind, n.written⟩ :: blocks) (n.within names) where
  path := by
    rw [List.reverse_cons, List.map_append, List.foldl_append, h.path, List.map_singleton,
      List.foldl_cons, List.foldl_nil, Reader.enterPath, n.after?_written, BlockName.within]
    cases hanchored : n.anchored with
    | true => rfl
    | false =>
        have hwritten : n.written = n.path := by rw [BlockName.written, hanchored]; rfl
        simp only [if_neg Bool.false_ne_true, hwritten]
        -- The reader asks for an empty path where the names ask for no name.
        cases names with
        | nil => rfl
        | cons name names =>
            have hne := join_ne_nil "::" (List.cons_ne_nil name names) h.ne_nil
            rw [if_neg (by simpa using hne), join_concat _ (List.cons_ne_nil _ _)]
  ne_nil := by
    rw [BlockName.within]
    split
    · exact List.forall_mem_singleton.2 n.path_ne_nil
    · exact List.forall_mem_append.2 ⟨h.ne_nil, List.forall_mem_singleton.2 n.path_ne_nil⟩
  outside := by simpa using hkind

end Encloses

section Members

variable {collapse : Bool} {blocks : List Block} {names : List Text}

/-- A method outside interfaces: its first line, and overloads below it that begin with a bar. -/
theorem Reads.method {line name type : Text} {scopes : List Scope} {bars : List Text}
    (houtside : (blocks.head?.any fun b => b.kind = .interface) = false)
    (hline : Declaration.ofLine line = .method scopes name type)
    (hbars : ∀ bar ∈ bars, bar.startsWith "|")
    (hcomplete : (⟨scopes, name, Text.join " " (type :: bars)⟩ : OpenMethod).IsComplete) :
    Reads collapse blocks (line :: bars) (scopes.map fun scope =>
      (⟨Reader.containerOf (blocks.reverse.map Block.name), scope, name⟩,
        ofMethodType collapse (Text.join " " (type :: bars)))) := by
  have hopen (index : Index) : (⟨index, blocks, none⟩ : Reader).readLine collapse line =
      ⟨index, blocks, some ⟨scopes, name, type⟩⟩ := by
    rw [Reader.readLine, hline]
    simp [Reader.declare, Reader.inInterface, houtside]
  have hrun (index : Index) : (line :: bars).foldl (Reader.readLine collapse)
      ⟨index, blocks, none⟩ =
        ⟨index, blocks, some ⟨scopes, name, Text.join " " (type :: bars)⟩⟩ := by
    rw [List.foldl_cons, hopen, Reader.foldl_readLine_overloads hbars]
  refine ⟨fun first hfirst => ?_, fun index open? hopen => ?_, fun index => ?_⟩
  · rw [← Option.some.inj hfirst]
    exact Declaration.startsWith_bar_eq_false (by rw [hline]; exact Declaration.noConfusion)
  · rw [hrun] at hopen
    rwa [← Option.some.inj hopen]
  · rw [hrun, Reader.closeMethod_some]

theorem MethodMember.reads_of_outside (m : MethodMember)
    (houtside : (blocks.head?.any fun b => b.kind = .interface) = false) :
    Reads collapse blocks (m.lines.map trim)
      (m.entries collapse (Reader.containerOf (blocks.reverse.map Block.name))) :=
  .method houtside m.ofLine_line m.startsWith_bar ⟨m.joinedType_ne_nil, m.bracketDepth_joinedType⟩

theorem MethodMember.reads (m : MethodMember) (h : Encloses blocks names) :
    Reads collapse blocks (m.lines.map trim) (m.entries collapse (containerNamed names)) := by
  rw [← h.container]
  exact m.reads_of_outside h.outside

theorem AttributeMember.reads (a : AttributeMember) (h : Encloses blocks names) :
    Reads collapse blocks [trim a.line] (a.entries collapse (containerNamed names)) := by
  refine .of_foldl (Member.attribute a).head_lines fun index => ?_
  have hinside : (⟨index, blocks, none⟩ : Reader).inInterface = false := h.outside
  rw [List.foldl_cons, List.foldl_nil, Reader.readLine, a.ofLine_line]
  simp only [Reader.declare, hinside, if_neg Bool.false_ne_true]
  rw [entries, ← h.container]
  cases a.access <;> rfl

theorem Member.reads (m : Member) (h : Encloses blocks names) :
    Reads collapse blocks (m.lines.map trim) (m.entries collapse (containerNamed names)) := by
  cases m with
  | method m => exact m.reads h
  | «attribute» a => exact a.reads h

end Members

/-! ## Members of interfaces -/

section Interfaces

variable {collapse : Bool} {blocks : List Block} {block : Block}

/-- In an interface a line counts only if it opens or closes a block. -/
theorem Reader.readLine_of_interface (hblock : block.kind = .interface) (index : Index)
    {line : Text} (hline : (Declaration.ofLine line).isOfBlock = false) :
    (⟨index, block :: blocks, none⟩ : Reader).readLine collapse line =
      ⟨index, block :: blocks, none⟩ := by
  have hinside : (⟨index, block :: blocks, none⟩ : Reader).inInterface := by
    simp [inInterface, hblock]
  rw [readLine]
  cases hdeclaration : Declaration.ofLine line with
  | opening b closed =>
      rw [hdeclaration] at hline
      cases hline
  | closing =>
      rw [hdeclaration] at hline
      cases hline
  | method scopes name type => simp [declare, hinside]
  | «attribute» access scope name type => simp [declare, hinside]
  | other => rfl

theorem Member.reads_of_interface (m : Member) (hblock : block.kind = .interface) :
    Reads collapse (block :: blocks) (m.lines.map trim) [] := by
  refine .of_foldl m.head_lines fun index => ?_
  refine List.foldlRecOn (motive := (· = (⟨index, block :: blocks, none⟩ : Reader)))
    (m.lines.map trim) (Reader.readLine collapse) rfl fun r hr line hline => ?_
  rw [hr, Reader.readLine_of_interface hblock index (m.isOfBlock_eq_false line hline)]

/-- An interface adds nothing. -/
theorem reads_interface (hblock : block.kind = .interface) (members : List Member) :
    Reads collapse (block :: blocks) ((members.flatMap Member.lines).map trim) [] := by
  induction members with
  | nil => exact .nil
  | cons m members ih =>
      rw [List.flatMap_cons, List.map_append]
      exact (m.reads_of_interface hblock).append ih

end Interfaces

/-! ## Forests -/

section Forests

variable {collapse : Bool}

/-- A block with what is declared in it stands above what follows it. -/
theorem map_trim_enclosed (line : Text) (inner rest : List Text) :
    (line :: (inner ++ Text.ofString "end" :: rest)).map trim =
      trim line :: (inner.map trim ++ [Text.ofString "end"]) ++ rest.map trim := by
  have hend : trim (Text.ofString "end") = Text.ofString "end" := by decide
  simp [hend]

/-- **The reader takes in a forest**: within blocks that make up a container it adds what the forest
declares there. -/
theorem Forest.reads (f : Forest) {blocks : List Block} {names : List Text}
    (h : Encloses blocks names) :
    Reads collapse blocks (f.lines.map trim) (f.entries collapse names) := by
  -- For all stacks at once: what is declared in a block is read with the block on the stack.
  induction f generalizing blocks names with
  | empty => exact .nil
  | member m rest ih =>
      rw [lines, List.map_append, entries]
      exact (m.reads h).append (ih h)
  | interface name members rest ih =>
      rw [lines, map_trim_enclosed]
      exact (Reads.enclosed (name.ofLine_opening .interface) (reads_interface rfl members)).append
        (ih h)
  | block kind hkind name inner rest ihInner ihRest =>
      rw [lines, map_trim_enclosed, entries]
      exact (Reads.enclosed (name.ofLine_opening kind) (ihInner (h.enter hkind name))).append
        (ihRest h)

end Forests

/-- **A file of declarations**: what was in the index stays as it was, and the members outside
interfaces are added under their keys, in order. -/
theorem Index.addText_render (collapse : Bool) (index : Index) (f : Forest) {margin : Nat → Text}
    (hmargin : ∀ i, isBlank (margin i) ∧ IsUnbroken (margin i)) :
    index.addText collapse (f.render margin) = index.addAll (f.entries collapse []) ∧
      index <+: index.addText collapse (f.render margin) ∧
      ∀ key, (index.addText collapse (f.render margin)).lookup key =
        (index.lookup key).or ((f.entries collapse []).lookup key) := by
  have hread : index.addText collapse (f.render margin) = index.addAll (f.entries collapse []) := by
    rw [addText, f.read_render hmargin]
    exact congrArg Reader.index ((f.reads .top).closed index)
  rw [hread]
  exact ⟨rfl, prefix_addAll _ _, fun key => lookup_addAll _ _ key⟩

/-- Nested blocks, an anchored name, an interface, and members of each kind. -/
def outerForest : Forest :=
  .block .class_ (by decide) ⟨false, "Outer", by decide, by decide, by decide⟩
    (.block .module (by decide) ⟨false, "Inner", by decide, by decide, by decide⟩
      (.member (.method
          { receiver := .selfOrInstance, name := "go"
            type := ⟨"(Integer) -> void", by decide, by decide, by decide⟩
            overloads := [⟨"() -> nil", by decide, by decide, by decide⟩]
            name_ne_nil := by decide, inName := by decide })
        (.member (.attribute
            { access := .readWrite, scope := .onInstance, name := "name"
              type := ⟨"String", by decide, by decide, by decide⟩
              name_ne_nil := by decide, inName := by decide })
          .empty))
      (.interface ⟨false, "_Each", by decide, by decide, by decide⟩
        [.method
          { receiver := .absent, name := "each"
            type := ⟨"() -> void", by decide, by decide, by decide⟩
            overloads := [], name_ne_nil := by decide, inName := by decide }]
        (.block .class_ (by decide) ⟨true, "Top", by decide, by decide, by decide⟩
          (.member (.method
              { receiver := .absent, name := "run"
                type := ⟨"() -> nil", by decide, by decide, by decide⟩
                overloads := [], name_ne_nil := by decide, inName := by decide })
            .empty)
          .empty)))
    (.member (.method
        { receiver := .self, name := "main"
          type := ⟨"() -> void", by decide, by decide, by decide⟩
          overloads := [], name_ne_nil := by decide, inName := by decide })
      .empty)

/-- A method of the module that is known already. -/
def knownGo : Index :=
  [(⟨"Outer::Inner", .onClass, "go"⟩, { returnType := "Integer" })]

theorem Index.addText_render_outerForest :
    (∀ _ : Nat, isBlank "  " ∧ IsUnbroken "  ") ∧
      outerForest.render (fun _ => "  ") =
        closed ["  class Outer", "  module Inner", "  def self?.go: (Integer) -> void",
          "  | () -> nil", "  attr_accessor name: String", "  end", "  interface _Each",
          "  def each: () -> void", "  end", "  class ::Top", "  def run: () -> nil", "  end",
          "  end", "  def self.main: () -> void"] ∧
      (knownGo.addText false (outerForest.render fun _ => "  ")).map Prod.fst =
        [⟨"Outer::Inner", .onClass, "go"⟩, ⟨"Outer::Inner", .onInstance, "go"⟩,
          ⟨"Outer::Inner", .onInstance, "name"⟩, ⟨"Outer::Inner", .onInstance, "name="⟩,
          ⟨"Top", .onInstance, "run"⟩, ⟨"Object", .onClass, "main"⟩] ∧
      (knownGo.addText false (outerForest.render fun _ => "  ")).lookup
          ⟨"Outer::Inner", .onClass, "go"⟩ = some { returnType := "Integer" } ∧
      (knownGo.addText false (outerForest.render fun _ => "  ")).lookup
          ⟨"Outer::Inner", .onInstance, "go"⟩ =
        some (ofMethodType false "(Integer) -> void | () -> nil") := by
  have hmargin : ∀ _ : Nat, isBlank "  " ∧ IsUnbroken "  " := fun _ => by decide
  obtain ⟨hindex, hprefix, hlookup⟩ := Index.addText_render false knownGo outerForest hmargin
  refine ⟨hmargin, by decide +kernel, ?_, ?_, ?_⟩
  · rw [hindex]
    decide +kernel
  · rw [hlookup]
    rfl
  · rw [hlookup]
    rfl

end RubyDoc.Signature
