import RubyDoc.Path
import RubyDoc.Proofs.Text.Search
import RubyDoc.Proofs.Text.Split

/-!
# Paths as filters see them

A filter sees what lies below its root without the root, and everything else as it is.  Between
normal paths this is a matter of names alone, so two leading slashes are the same root as one.  What
decides is the way from the root, and whether it begins with two dots; that is wrong for a name that
begins with two dots itself.  The form is what it should be exactly if the first name below the root
does not (`filterForm_eq_iff`).
-/

namespace RubyDoc.Path

open Text

/-- Is the text the name of an entry of a directory? -/
structure IsEntry (name : Text) : Prop where
  ne_nil : name ≠ []
  ne_here : name ≠ here
  ne_above : name ≠ above
  slash_notMem : slash ∉ name

theorem isEntry_iff {name : Text} :
    IsEntry name ↔ name ≠ [] ∧ name ≠ here ∧ name ≠ above ∧ slash ∉ name :=
  ⟨fun h => ⟨h.ne_nil, h.ne_here, h.ne_above, h.slash_notMem⟩,
    fun ⟨hnil, hhere, habove, hslash⟩ => ⟨hnil, hhere, habove, hslash⟩⟩

instance (name : Text) : Decidable (IsEntry name) :=
  decidable_of_iff _ isEntry_iff.symm

/-- Is the path absolute and normal: names of entries below a root? -/
structure IsNormal (p : Path) : Prop where
  isAbsolute : p.isAbsolute
  isEntry : ∀ name ∈ p.names, IsEntry name

theorem isNormal_iff {p : Path} : p.IsNormal ↔ p.isAbsolute ∧ ∀ name ∈ p.names, IsEntry name :=
  ⟨fun h => ⟨h.isAbsolute, h.isEntry⟩, fun ⟨habsolute, hentry⟩ => ⟨habsolute, hentry⟩⟩

instance (p : Path) : Decidable p.IsNormal :=
  decidable_of_iff _ isNormal_iff.symm

/-! ## Normal paths -/

theorem climb_of_isEntry {name : Text} (h : IsEntry name) (isAbsolute : Bool)
    (before : List Text) : climb isAbsolute before name = name :: before := by
  unfold climb
  rw [if_pos h.ne_above]

/-- Names of entries are taken as they come. -/
theorem foldl_climb {names : List Text} (h : ∀ name ∈ names, IsEntry name) (isAbsolute : Bool)
    (before : List Text) : names.foldl (climb isAbsolute) before = names.reverse ++ before := by
  induction names generalizing before with
  | nil => rfl
  | cons name names ih =>
      obtain ⟨hname, hnames⟩ := List.forall_mem_cons.1 h
      rw [List.foldl_cons, climb_of_isEntry hname, ih hnames, List.reverse_cons,
        List.append_assoc, List.singleton_append]

theorem IsNormal.normal_eq {p : Path} (h : p.IsNormal) : p.normal = p := by
  rw [normal, foldl_climb h.isEntry, List.append_nil, List.reverse_reverse]

theorem IsNormal.join_eq {p : Path} (h : p.IsNormal) (directory : Path) : directory.join p = p := by
  rw [join, if_pos h.isAbsolute]

/-- Below a root, no double dots are left over. -/
theorem isEntry_of_mem_climb {before : List Text} {name : Text}
    (hbefore : ∀ entry ∈ before, IsEntry entry) (hnil : name ≠ []) (hhere : name ≠ here)
    (hslash : slash ∉ name) : ∀ entry ∈ climb true before name, IsEntry entry := by
  unfold climb
  split
  · rename_i habove
    exact List.forall_mem_cons.2 ⟨⟨hnil, hhere, habove, hslash⟩, hbefore⟩
  · cases before with
    | nil => exact fun entry hentry => absurd hentry List.not_mem_nil
    | cons last rest =>
        obtain ⟨hlast, hrest⟩ := List.forall_mem_cons.1 hbefore
        dsimp only
        rw [if_neg hlast.ne_above]
        exact hrest

theorem isEntry_of_mem_foldl_climb {names before : List Text}
    (hnames : ∀ name ∈ names, name ≠ [] ∧ name ≠ here ∧ slash ∉ name)
    (hbefore : ∀ entry ∈ before, IsEntry entry) :
    ∀ entry ∈ names.foldl (climb true) before, IsEntry entry := by
  induction names generalizing before with
  | nil => exact hbefore
  | cons name names ih =>
      obtain ⟨⟨hnil, hhere, hslash⟩, hnames⟩ := List.forall_mem_cons.1 hnames
      exact ih hnames (isEntry_of_mem_climb hbefore hnil hhere hslash)

/-- **An absolute path that is read and normalised is normal.** -/
theorem isNormal_normal_ofText {t : Text} (h : (ofText t).isAbsolute) :
    (ofText t).normal.IsNormal := by
  refine ⟨h, fun name hname => ?_⟩
  rw [normal, h, List.mem_reverse] at hname
  refine isEntry_of_mem_foldl_climb (fun piece hpiece => ?_)
    (fun entry hentry => absurd hentry List.not_mem_nil) name hname
  obtain ⟨hmem, hpiece⟩ := List.mem_filter.1 hpiece
  rw [Bool.and_eq_true, Bool.not_eq_true', List.isEmpty_eq_false_iff, decide_eq_true_eq] at hpiece
  exact ⟨hpiece.1, hpiece.2, notMem_of_mem_splitOn hmem⟩

/-! ## Names and their text -/

section Names

variable {name : Text} {names : List Text} (h : ∀ n ∈ name :: names, IsEntry n)
include h

theorem head_join_ne_slash : (Text.join [slash] (name :: names)).head? ≠ some slash := by
  obtain ⟨s, rest, hs⟩ := List.exists_cons_of_ne_nil (h name List.mem_cons_self).ne_nil
  have hne : s ≠ slash := by
    rintro rfl
    exact (h name List.mem_cons_self).slash_notMem (hs ▸ List.mem_cons_self)
  cases names with
  | nil => simpa [Text.join, hs] using hne
  | cons next names => simpa [Text.join, hs] using hne

/-- Names come back from their text. -/
theorem ofText_join : ofText (Text.join [slash] (name :: names)) = ⟨[], name :: names⟩ := by
  have hlead : (Text.join [slash] (name :: names)).takeWhile (· = slash) = [] := by
    have hhead := head_join_ne_slash h
    cases hjoin : Text.join [slash] (name :: names) with
    | nil => rfl
    | cons s rest =>
        rw [hjoin, List.head?_cons, Ne, Option.some.injEq] at hhead
        rw [List.takeWhile_cons_of_neg (by simpa using hhead)]
  have hsplit : splitOn slash (Text.join [slash] (name :: names)) = name :: names :=
    splitOn_join (List.cons_ne_nil name names) fun n hn => (h n hn).slash_notMem
  have hkeep : (name :: names).filter (fun n => !n.isEmpty && decide (n ≠ here)) =
      name :: names := by
    rw [List.filter_eq_self]
    intro n hn
    simp [(h n hn).ne_nil, (h n hn).ne_here]
  rw [ofText, hlead, hsplit, hkeep]
  rfl

theorem toText_ofText_join : (ofText (Text.join [slash] (name :: names))).toText =
    Text.join [slash] (name :: names) := by
  rw [ofText_join h]
  rfl

/-- Whether a way begins with two dots is seen in its first name. -/
theorem startsWith_above_join :
    (Text.join [slash] (name :: names)).startsWith above ↔ name.startsWith above := by
  cases names with
  | nil => rfl
  | cons next names =>
      have hname := h name List.mem_cons_self
      rw [join_cons [slash] name (List.cons_ne_nil next names), startsWith_iff, startsWith_iff]
      constructor
      · rintro ⟨rest, hrest⟩
        rw [List.append_assoc] at hrest
        rcases List.append_eq_append_iff.1 hrest with ⟨more, habove, -⟩ | ⟨more, hmore, -⟩
        · -- A name before the slash cannot be a proper beginning of two dots.
          match name, hname, more, habove with
          | [], hname, _, _ => exact absurd rfl hname.ne_nil
          | [s], hname, _, habove =>
              have hs : s = .char '.' := ((List.cons.inj habove).1).symm
              exact absurd (by rw [hs]; rfl) hname.ne_here
          | [s, r], _, [], habove => exact ⟨[], by rw [List.append_nil, habove, List.append_nil]⟩
        · exact ⟨more, hmore⟩
      · rintro ⟨rest, rfl⟩
        exact ⟨rest ++ [slash] ++ Text.join [slash] (next :: names), by simp⟩

end Names

/-! ## The way from a root -/

theorem cutCommon_append (names rest : List Text) :
    cutCommon names (names ++ rest) = ([], rest) := by
  induction names with
  | nil => rfl
  | cons name names ih => rw [List.cons_append, cutCommon, if_pos rfl, ih]

/-- Nothing is left of a list exactly if it begins the other. -/
theorem cutCommon_fst_eq_nil_iff {names others : List Text} :
    (cutCommon names others).1 = [] ↔ names <+: others := by
  induction names generalizing others with
  | nil => exact iff_of_true rfl List.nil_prefix
  | cons name names ih =>
      cases others with
      | nil => exact iff_of_false (List.cons_ne_nil _ _) (by simp)
      | cons other others =>
          rw [cutCommon, List.cons_prefix_cons]
          split
          · rename_i hsame
            rw [ih, and_iff_right hsame]
          · rename_i hdiffer
            exact iff_of_false (List.cons_ne_nil _ _) fun h => hdiffer h.1

section Way

variable {directory base p : Path} (hbase : base.IsNormal) (hp : p.IsNormal)
include hbase hp

theorem relativeTo_eq : relativeTo directory base p =
    (cutCommon base.names p.names).1.map (fun _ => above) ++
      (cutCommon base.names p.names).2 := by
  rw [relativeTo, hbase.join_eq, hp.join_eq, hbase.normal_eq, hp.normal_eq]

/-- The way to what lies below leads down only. -/
theorem relativeTo_of_below {names : List Text} (h : p.names = base.names ++ names) :
    relativeTo directory base p = names := by
  rw [relativeTo_eq hbase hp, h, cutCommon_append]
  rfl

/-- The way to anything else starts upwards. -/
theorem startsWith_above_relativeTo (h : ¬ base.names <+: p.names) :
    (Text.join [slash] (relativeTo directory base p)).startsWith above := by
  obtain ⟨up, ups, hup⟩ := List.exists_cons_of_ne_nil (mt cutCommon_fst_eq_nil_iff.1 h)
  rw [relativeTo_eq hbase hp, hup, List.map_cons, List.cons_append, startsWith_iff]
  cases ups.map (fun _ => above) ++ (cutCommon base.names p.names).2 with
  | nil => exact ⟨[], rfl⟩
  | cons next rest => exact ⟨[slash] ++ Text.join [slash] (next :: rest), rfl⟩

end Way

theorem length_join_le_append (before : List Text) {names : List Text} (hne : names ≠ []) :
    (Text.join [slash] names).length ≤ (Text.join [slash] (before ++ names)).length := by
  induction before with
  | nil => exact Nat.le_refl _
  | cons name before ih =>
      rw [List.cons_append, join_cons [slash] name (by simp [hne]), List.length_append]
      omega

/-- A path is longer than the way to it. -/
theorem toText_ne_join {p : Path} (h : p.isAbsolute) {before names : List Text}
    (hnames : p.names = before ++ names) (hne : names ≠ []) :
    p.toText ≠ Text.join [slash] names := by
  have hroot : p.root ≠ [] := by simpa [isAbsolute] using h
  have hlength := length_join_le_append before hne
  intro heq
  rw [toText, if_neg (by simp [hroot]), hnames] at heq
  have hsame := congrArg List.length heq
  have hpos := List.length_pos_iff.2 hroot
  rw [List.length_append] at hsame
  omega

/-- **How a filter sees normal paths.**  A path below the root is seen as its names from there on
exactly if the first of them does not begin with two dots; if it does, and for every path that is
neither the root nor below it, the path is seen as it is. -/
theorem filterForm_eq_iff {directory base p : Path} (hbase : base.IsNormal) (hp : p.IsNormal) :
    (∀ name names, p.names = base.names ++ name :: names →
      (filterForm directory base p = Text.join [slash] (name :: names) ↔
        name.startsWith above = false) ∧
      (name.startsWith above → filterForm directory base p = p.toText)) ∧
    (¬ base.names <+: p.names → filterForm directory base p = p.toText) := by
  refine ⟨fun name names hnames => ?_, fun hapart => ?_⟩
  · have hentry : ∀ n ∈ name :: names, IsEntry n := fun n hn =>
      hp.isEntry n (hnames ▸ List.mem_append_right _ hn)
    have hform : filterForm directory base p =
        if name.startsWith above then p.toText else Text.join [slash] (name :: names) := by
      rw [filterForm, relativeTo_of_below hbase hp hnames]
      simp only [startsWith_above_join hentry, toText_ofText_join hentry]
    cases hdots : name.startsWith above with
    | false =>
        rw [hdots, if_neg Bool.false_ne_true] at hform
        exact ⟨iff_of_true hform rfl, fun h => by cases h⟩
    | true =>
        rw [hdots, if_pos rfl] at hform
        have hne := toText_ne_join hp.isAbsolute hnames (List.cons_ne_nil name names)
        exact ⟨iff_of_false (hform ▸ hne) (by simp), fun _ => hform⟩
  · rw [filterForm, if_pos (startsWith_above_relativeTo hbase hp hapart)]

/-- The root of a project. -/
def projectRoot : Path :=
  (ofText "/proj").normal

/-- A path below the root loses it; its neighbour, which the root's text begins too, does not. -/
theorem filterForm_eq_iff_project :
    projectRoot.IsNormal ∧ (ofText "/proj/lib/a.rb").IsNormal ∧
      (ofText "/proj2/lib/a.rb").IsNormal ∧ (ofText "/proj/..lib/a.rb").IsNormal ∧
      filterForm projectRoot projectRoot (ofText "/proj/lib/a.rb") = "lib/a.rb" ∧
      filterForm projectRoot projectRoot (ofText "/proj2/lib/a.rb") = "/proj2/lib/a.rb" ∧
      filterForm projectRoot projectRoot (ofText "/proj/..lib/a.rb") = "/proj/..lib/a.rb" := by
  have hroot : projectRoot.IsNormal := isNormal_normal_ofText (by decide)
  have hbelow : (ofText "/proj/lib/a.rb").IsNormal := by decide
  have hapart : (ofText "/proj2/lib/a.rb").IsNormal := by decide
  have hdots : (ofText "/proj/..lib/a.rb").IsNormal := by decide
  refine ⟨hroot, hbelow, hapart, hdots, ?_, ?_, ?_⟩
  · exact ((filterForm_eq_iff hroot hbelow).1 "lib" ["a.rb"] (by decide)).1.2 (by decide)
  · exact (filterForm_eq_iff hroot hapart).2 (by decide)
  · exact ((filterForm_eq_iff hroot hdots).1 "..lib" ["a.rb"] (by decide)).2 (by decide)

/-- **A file whose directory has a name that begins with two dots is seen with the root.** -/
theorem filterForm_of_dotted :
    (ofText "/proj").IsNormal ∧ (∀ name ∈ [("..foo" : Text), "a.rb"], IsEntry name) ∧
      (ofText "/proj/..foo/a.rb").names = (ofText "/proj").names ++ [("..foo" : Text), "a.rb"] ∧
      filterForm (ofText "/proj") (ofText "/proj") (ofText "/proj/..foo/a.rb") =
        "/proj/..foo/a.rb" ∧
      filterForm (ofText "/proj") (ofText "/proj") (ofText "/proj/..foo/a.rb") ≠
        Text.join [slash] [("..foo" : Text), "a.rb"] := by
  decide

end RubyDoc.Path
