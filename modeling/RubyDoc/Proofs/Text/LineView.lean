import Mathlib.Data.List.Basic
import Mathlib.Data.List.TakeWhile
import RubyDoc.Proofs.Text.Search
import RubyDoc.Proofs.Text.Split
import RubyDoc.Text.Lines

/-!
# A text as its lines

Every text is its lines joined by line feeds, and lines without line feeds come back from the joined
text.  An offset at the start of a line is the length of the closed lines above it, so cutting a
text there is cutting its list of lines.  Nothing here looks at what a line says.
-/

namespace RubyDoc.Text

/-- The text with the given lines. -/
def ofLines (ls : List Text) : Text :=
  join [Sym.lineFeed] ls

/-- The given lines, each with its line feed. -/
def closed (ls : List Text) : Text :=
  ls.flatMap (· ++ [Sym.lineFeed])

@[simp] theorem closed_nil : closed [] = [] := rfl

@[simp] theorem closed_cons (l : Text) (ls : List Text) :
    closed (l :: ls) = l ++ Sym.lineFeed :: closed ls := by
  simp [closed]

@[simp] theorem closed_append (ls ms : List Text) : closed (ls ++ ms) = closed ls ++ closed ms := by
  simp [closed]

@[simp] theorem ofLines_singleton (l : Text) : ofLines [l] = l := rfl

theorem ofLines_cons (l : Text) {ls : List Text} (hls : ls ≠ []) :
    ofLines (l :: ls) = l ++ Sym.lineFeed :: ofLines ls := by
  rw [ofLines, ofLines, join_cons _ l hls, List.append_assoc, List.singleton_append]

/-- Lines with more lines below them are closed. -/
theorem ofLines_append (ls : List Text) {ms : List Text} (hms : ms ≠ []) :
    ofLines (ls ++ ms) = closed ls ++ ofLines ms := by
  induction ls with
  | nil => rfl
  | cons l ls ih =>
      rw [List.cons_append, ofLines_cons l (by simp [hms]), ih]
      simp

/-! ## From a text to its lines and back -/

theorem lines_ne_nil (t : Text) : lines t ≠ [] :=
  splitOn_ne_nil _ t

theorem ofLines_lines (t : Text) : ofLines (lines t) = t :=
  join_splitOn _ t

theorem lineFeed_notMem_of_mem_lines {t l : Text} (hl : l ∈ lines t) : Sym.lineFeed ∉ l :=
  notMem_of_mem_splitOn hl

theorem lines_of_lineFeed_notMem {l : Text} (hl : Sym.lineFeed ∉ l) : lines l = [l] :=
  splitOn_of_notMem hl

theorem lines_append_lineFeed {l : Text} (hl : Sym.lineFeed ∉ l) (t : Text) :
    lines (l ++ Sym.lineFeed :: t) = l :: lines t :=
  splitOn_append_sep hl t

theorem lines_closed_append {ls : List Text} (hls : ∀ l ∈ ls, Sym.lineFeed ∉ l) (t : Text) :
    lines (closed ls ++ t) = ls ++ lines t := by
  induction ls with
  | nil => rfl
  | cons l ls ih =>
      rw [closed_cons, List.append_assoc, List.cons_append,
        lines_append_lineFeed (hls l List.mem_cons_self),
        ih fun m hm => hls m (List.mem_cons_of_mem l hm)]
      rfl

/-- Lines without line feeds come back from their text. -/
theorem lines_ofLines {ls : List Text} (hne : ls ≠ []) (hls : ∀ l ∈ ls, Sym.lineFeed ∉ l) :
    lines (ofLines ls) = ls :=
  splitOn_join hne hls

/-! ## Cutting at the start of a line -/

theorem take_ofLines (ls : List Text) {ms : List Text} (hms : ms ≠ []) :
    (ofLines (ls ++ ms)).take (closed ls).length = closed ls := by
  rw [ofLines_append ls hms, List.take_left]

theorem drop_ofLines (ls : List Text) {ms : List Text} (hms : ms ≠ []) :
    (ofLines (ls ++ ms)).drop (closed ls).length = ofLines ms := by
  rw [ofLines_append ls hms, List.drop_left]

/-- The given lines as complete lines, the first one at the offset `start`. -/
def numbered (start : Nat) : List Text → List Line
  | [] => []
  | l :: ls => ⟨start, l⟩ :: numbered (start + l.length + 1) ls

theorem numbered_append (start : Nat) (ls ms : List Text) :
    numbered start (ls ++ ms) = numbered start ls ++ numbered (start + (closed ls).length) ms := by
  induction ls generalizing start with
  | nil => rfl
  | cons l ls ih =>
      rw [List.cons_append, numbered, numbered, ih, List.cons_append]
      congr 3
      simp only [closed_cons, List.length_append, List.length_cons]
      omega

@[simp] theorem map_raw_numbered (start : Nat) (ls : List Text) :
    (numbered start ls).map Line.raw = ls := by
  induction ls generalizing start with
  | nil => rfl
  | cons l ls ih => simp [numbered, ih]

theorem completeLinesFrom_concat (start : Nat) (ls : List Text) (l : Text) :
    completeLinesFrom start (ls ++ [l]) = numbered start ls := by
  induction ls generalizing start with
  | nil => rfl
  | cons m ls ih =>
      obtain ⟨next, rest, hrest⟩ := List.exists_cons_of_ne_nil (l := ls ++ [l]) (by simp)
      rw [List.cons_append, hrest, completeLinesFrom, ← hrest, ih, numbered]

theorem completeLines_closed {ls : List Text} (hls : ∀ l ∈ ls, Sym.lineFeed ∉ l) :
    completeLines (closed ls) = numbered 0 ls := by
  have hlines : lines (closed ls) = ls ++ [[]] := by
    rw [← List.append_nil (closed ls), lines_closed_append hls, lines_of_lineFeed_notMem (by simp)]
  rw [completeLines, hlines, completeLinesFrom_concat]

/-! ## The line that holds an offset -/

/-- Does the offset `k` lie in the line `l`, with `above` above it and `below` below it?  An offset
past the end lies in the last line. -/
def LiesIn (k : Nat) (above : List Text) (l : Text) (below : List Text) : Prop :=
  (closed above).length ≤ k ∧ (k ≤ (closed above).length + l.length ∨ below = [])

/-- Every offset lies in some line. -/
theorem exists_liesIn (k : Nat) {ls : List Text} (hne : ls ≠ []) :
    ∃ above l below, ls = above ++ l :: below ∧ LiesIn k above l below := by
  induction ls generalizing k with
  | nil => exact absurd rfl hne
  | cons l ls ih =>
      by_cases hk : k ≤ l.length ∨ ls = []
      · exact ⟨[], l, ls, rfl, by simpa [LiesIn] using hk⟩
      · rw [not_or, Nat.not_le] at hk
        obtain ⟨above, m, below, rfl, hlow, hhigh⟩ := ih (k - (l.length + 1)) hk.2
        refine ⟨l :: above, m, below, rfl, ?_, hhigh.imp_left fun hle => ?_⟩ <;>
          simp only [closed_cons, List.length_append, List.length_cons] <;> omega

/-- The line that holds the offset `k`. -/
def lineAt (t : Text) (k : Nat) : Text :=
  (t.drop (t.lineStart k)).takeWhile (· ≠ Sym.lineFeed)

theorem takeWhile_ofLines_cons {p : Sym → Bool} (hp : p Sym.lineFeed = false) (l : Text)
    (ls : List Text) : (ofLines (l :: ls)).takeWhile p = l.takeWhile p := by
  cases ls with
  | nil => rfl
  | cons m ls =>
      rw [ofLines_cons l (by simp)]
      induction l with
      | nil => simp [hp]
      | cons s l ih => by_cases hs : p s <;> simp [hs, ih]

section LiesIn

variable {k : Nat} {above below : List Text} {l : Text}

theorem LiesIn.lineStart_eq (h : LiesIn k above l below) (hl : Sym.lineFeed ∉ l) :
    lineStart (ofLines (above ++ l :: below)) k = (closed above).length := by
  obtain ⟨j, rfl⟩ := Nat.exists_eq_add_of_le h.1
  have htake : (ofLines (above ++ l :: below)).take ((closed above).length + j)
      = closed above ++ l.take j := by
    rw [ofLines_append above (by simp), List.take_length_add_append]
    congr 1
    rcases h.2 with hj | rfl
    · cases below with
      | nil => rfl
      | cons m below =>
          rw [ofLines_cons l (by simp), List.take_append_of_le_length (by omega)]
    · rfl
  -- Going back from the offset, the first line feed is the one that closes the lines above.
  have hpart : ∀ s ∈ (l.take j).reverse, decide (s ≠ Sym.lineFeed) = true := by
    intro s hs
    have hmem : s ∈ l := List.mem_of_mem_take (List.mem_reverse.1 hs)
    simpa using ne_of_mem_of_not_mem hmem hl
  have hback : ((closed above).reverse.takeWhile (· ≠ Sym.lineFeed)) = [] := by
    rcases List.eq_nil_or_concat' above with rfl | ⟨ms, m, rfl⟩
    · rfl
    · simp
  rw [lineStart, htake]
  simp only [List.reverse_append, List.takeWhile_append_of_pos hpart, hback, List.append_nil,
    List.length_append, List.length_reverse]
  omega

theorem LiesIn.lineAt_eq (h : LiesIn k above l below) (hl : Sym.lineFeed ∉ l) :
    lineAt (ofLines (above ++ l :: below)) k = l := by
  rw [lineAt, h.lineStart_eq hl, drop_ofLines above (by simp),
    takeWhile_ofLines_cons (by simp), List.takeWhile_eq_self_iff]
  intro s hs
  simpa using ne_of_mem_of_not_mem hs hl

end LiesIn

theorem indentAt_ofLines (above : List Text) (l : Text) (below : List Text) :
    indentAt (ofLines (above ++ l :: below)) (closed above).length = l.takeWhile isIndentSym := by
  rw [indentAt, drop_ofLines above (by simp), takeWhile_ofLines_cons (by rfl)]

/-! ## Line endings -/

/-- What new lines get before their line feed. -/
def ending (t : Text) : Text :=
  if t.contains "\r\n" then [Sym.carriageReturn] else []

theorem newline_eq (t : Text) : t.newline = t.ending ++ [Sym.lineFeed] := by
  unfold newline ending
  split <;> rfl

theorem ending_eq (t : Text) : t.ending = [] ∨ t.ending = [Sym.carriageReturn] := by
  rw [ending]
  split
  · exact Or.inr rfl
  · exact Or.inl rfl

theorem contains_crlf_cons (s : Sym) (t : Text) : Text.contains (s :: t) "\r\n" =
    (decide (s = Sym.carriageReturn ∧ t.head? = some Sym.lineFeed) || t.contains "\r\n") := by
  have hhere : (after? ("\r\n" : Text) (s :: t)).isSome =
      decide (s = Sym.carriageReturn ∧ t.head? = some Sym.lineFeed) := by
    rw [Bool.eq_iff_iff, Option.isSome_iff_exists, decide_eq_true_iff]
    constructor
    · rintro ⟨rest, h⟩
      obtain ⟨rfl, rfl⟩ := List.cons.inj (after?_eq_some_iff.1 h)
      exact ⟨rfl, rfl⟩
    · rintro ⟨rfl, ht⟩
      cases t with
      | nil => cases ht
      | cons r t =>
          obtain rfl := Option.some.inj ht
          exact ⟨t, after?_eq_some_iff.2 rfl⟩
  rw [← hhere, contains, contains, findSome?]
  cases after? ("\r\n" : Text) (s :: t) <;> rfl

theorem contains_crlf_of_lineFeed_notMem {l : Text} (hl : Sym.lineFeed ∉ l) :
    l.contains "\r\n" = false := by
  rw [Bool.eq_false_iff, Ne, contains_iff]
  rintro ⟨before, rest, rfl⟩
  exact hl (by simp [ofString, Sym.lineFeed])

theorem contains_crlf_append {l : Text} (hl : Sym.lineFeed ∉ l) (t : Text) :
    (l ++ Sym.lineFeed :: t).contains "\r\n" =
      (decide (l.getLast? = some Sym.carriageReturn) || t.contains "\r\n") := by
  induction l with
  | nil => rw [List.nil_append, contains_crlf_cons]; rfl
  | cons s l ih =>
      rw [List.mem_cons, not_or] at hl
      rw [List.cons_append, contains_crlf_cons, ih hl.2]
      cases l with
      | nil => simp
      | cons r l =>
          have hr : r ≠ Sym.lineFeed := fun h => hl.2 (h ▸ List.mem_cons_self)
          simp [hr]

/-- A text has the long ending iff one of its closed lines ends in a carriage return. -/
theorem contains_crlf_ofLines {ls : List Text} (hls : ∀ l ∈ ls, Sym.lineFeed ∉ l) :
    (ofLines ls).contains "\r\n" ↔ ∃ l ∈ ls.dropLast, l.getLast? = some Sym.carriageReturn := by
  induction ls with
  | nil => exact iff_of_false (by decide) (by simp)
  | cons l ls ih =>
      have hl := hls l List.mem_cons_self
      cases ls with
      | nil => simp [contains_crlf_of_lineFeed_notMem hl]
      | cons m ls =>
          rw [ofLines_cons l (by simp), contains_crlf_append hl, Bool.or_eq_true,
            ih fun k hk => hls k (List.mem_cons_of_mem l hk)]
          simp

theorem contains_crlf_iff (t : Text) :
    t.contains "\r\n" ↔ ∃ l ∈ t.lines.dropLast, l.getLast? = some Sym.carriageReturn := by
  have h := contains_crlf_ofLines fun l (hl : l ∈ t.lines) => lineFeed_notMem_of_mem_lines hl
  rwa [ofLines_lines] at h

theorem contains_crlf_eq_false_iff (t : Text) :
    t.contains "\r\n" = false ↔ t.ending = [] := by
  rw [ending]
  cases t.contains "\r\n" <;> simp

theorem ending_eq_nil_iff (t : Text) :
    t.ending = [] ↔ ∀ l ∈ t.lines.dropLast, l.getLast? ≠ some Sym.carriageReturn := by
  rw [← contains_crlf_eq_false_iff, Bool.eq_false_iff, Ne, contains_crlf_iff, not_exists]
  exact forall_congr' fun l => not_and

end RubyDoc.Text
