import RubyDoc.Proofs.Comment.Above
import RubyDoc.Proofs.Edit.Ranges

/-!
# The comment above a line is found exactly

What the comment above a line is can be said with offsets alone, for every text: complete lines that
follow each other, all of them comments, with nothing but blank lines below them and no comment line
directly above them.  The search finds a comment iff there is such a block, and then that block
(`runAbove?_finds_nearest`).  Lines end at line feeds only; a carriage return in front of one is no
part of what the line says, and a line of any white space is blank.
-/

namespace RubyDoc

namespace Text

/-- Is the line a complete one of the text?  It starts at the top or behind a line feed, and a line
feed ends it. -/
structure IsLineOf (t : Text) (l : Line) : Prop where
  starts : Edit.StartsLine t l.start
  reads : l.raw ++ [Sym.lineFeed] <+: t.drop l.start
  lineFeed_notMem : Sym.lineFeed ∉ l.raw

theorem lines_closed {ls : List Text} (h : ∀ l ∈ ls, Sym.lineFeed ∉ l) :
    lines (closed ls) = ls ++ [[]] := by
  have hlines := lines_closed_append h []
  rwa [List.append_nil] at hlines

theorem closed_inj {ls ms : List Text} (hls : ∀ l ∈ ls, Sym.lineFeed ∉ l)
    (hms : ∀ m ∈ ms, Sym.lineFeed ∉ m) (h : closed ls = closed ms) : ls = ms := by
  have hlines := congrArg lines h
  rw [lines_closed hls, lines_closed hms] at hlines
  exact List.append_cancel_right hlines

theorem closed_lines (t : Text) : closed (lines t) = t ++ [Sym.lineFeed] := by
  obtain ⟨ls, l, hconcat⟩ := (List.eq_nil_or_concat' (lines t)).resolve_left (lines_ne_nil t)
  have ht : t = closed ls ++ l := by
    conv_lhs => rw [← ofLines_lines t, hconcat, ofLines_append ls (by simp)]
    rfl
  rw [hconcat, closed_append, ht]
  simp

/-- Above the start of a line there are complete lines only. -/
theorem exists_take_eq_closed {t : Text} {k : Nat} (h : Edit.StartsLine t k) :
    ∃ ls, (∀ l ∈ ls, Sym.lineFeed ∉ l) ∧ t.take k = closed ls := by
  rcases h with rfl | ⟨j, rfl, hfeed⟩
  · exact ⟨[], by simp, rfl⟩
  · refine ⟨lines (t.take j), fun l hl => lineFeed_notMem_of_mem_lines hl, ?_⟩
    rw [closed_lines, List.take_add_one, hfeed]
    rfl

theorem le_length_of_startsLine {t : Text} {k : Nat} (h : Edit.StartsLine t k) :
    k ≤ t.length := by
  rcases h with rfl | ⟨j, rfl, hfeed⟩
  · exact Nat.zero_le _
  · obtain ⟨hj, -⟩ := List.getElem?_eq_some_iff.1 hfeed
    exact hj

namespace IsLineOf

variable {t : Text} {l : Line}

theorem of_eq {above : List Text} {raw rest : Text} (hraw : Sym.lineFeed ∉ raw)
    (h : t = closed above ++ (raw ++ Sym.lineFeed :: rest)) :
    IsLineOf t ⟨(closed above).length, raw⟩ where
  starts := h ▸ Edit.startsLine_closed above _
  reads := by
    rw [h, List.drop_left]
    exact ⟨rest, by simp⟩
  lineFeed_notMem := hraw

theorem stop_eq (l : Line) : l.stop = l.start + (l.raw ++ [Sym.lineFeed]).length := by
  simp [Line.stop, Nat.add_assoc]

theorem take_stop (h : IsLineOf t l) :
    t.take l.stop = t.take l.start ++ (l.raw ++ [Sym.lineFeed]) := by
  rw [stop_eq, List.take_add, ← List.prefix_iff_eq_take.1 h.reads]

/-- A line above another one is among the complete lines there. -/
theorem exists_above {k : Nat} {ls : List Text} (h : IsLineOf t l) (hk : l.stop ≤ k)
    (hls : ∀ m ∈ ls, Sym.lineFeed ∉ m) (htake : t.take k = closed ls) :
    ∃ above below, ls = above ++ l.raw :: below ∧ l.start = (closed above).length := by
  obtain ⟨above, habove, hbefore⟩ := exists_take_eq_closed h.starts
  have hlength := le_length_of_startsLine h.starts
  refine ⟨above, (lines ((t.take k).drop l.stop)).dropLast, ?_, ?_⟩
  · -- The text down to `k` read in two ways: as the lines `ls`, and cut behind the line `l`.
    have hcut : closed ls =
        closed above ++ (l.raw ++ Sym.lineFeed :: (t.take k).drop l.stop) := by
      rw [← htake, ← hbefore]
      conv_lhs => rw [← List.take_append_drop l.stop (t.take k), List.take_take,
        Nat.min_eq_left hk, h.take_stop]
      simp
    have hlines := congrArg lines hcut
    rw [lines_closed hls, lines_closed_append habove, lines_append_lineFeed h.lineFeed_notMem]
      at hlines
    have hdrop := congrArg List.dropLast hlines
    rw [List.dropLast_concat, List.dropLast_append_of_ne_nil (List.cons_ne_nil _ _),
      List.dropLast_cons_of_ne_nil (lines_ne_nil _)] at hdrop
    exact hdrop
  · rw [← hbefore, List.length_take]
    omega

end IsLineOf

end Text

namespace Comment

open Text

/-- Is every complete line between two offsets blank? -/
def BlankBetween (t : Text) (start stop : Nat) : Prop :=
  ∀ l, IsLineOf t l → start ≤ l.start → l.stop ≤ stop → isBlank l.text

/-- Is the run the comment nearest above the line that starts at `bol`?  Its lines are comment lines
of the text, each starting where the one above it stops.  Only blank lines are between them and
`bol`, and no comment line touches them from above. -/
structure IsNearest (t : Text) (bol : Nat) (r : Run) : Prop where
  isLine : ∀ l ∈ r.all, IsLineOf t l ∧ isComment l.text
  touching : r.all.IsChain fun upper lower => upper.stop = lower.start
  increasing : (r.all.map Line.start).Pairwise (· < ·)
  stop_le : r.stop ≤ bol
  gap : ∃ gap, (∀ l ∈ gap, isBlank l ∧ Sym.lineFeed ∉ l) ∧ (t.take bol).drop r.stop = closed gap
  maximal : ∀ l, IsLineOf t l → l.stop = r.start → isComment l.text = false

/-! ## Lines that follow each other -/

theorem isChain_numbered (start : Nat) (ls : List Text) :
    (numbered start ls).IsChain fun upper lower => upper.stop = lower.start := by
  induction ls generalizing start with
  | nil => exact .nil
  | cons l ls ih =>
      cases ls with
      | nil => exact .singleton _
      | cons m ls => exact .cons_cons rfl (ih _)

theorem pairwise_start_numbered (start : Nat) (ls : List Text) :
    ((numbered start ls).map Line.start).Pairwise (· < ·) := by
  have hle : ∀ (start : Nat) (ls : List Text), ∀ k ∈ (numbered start ls).map Line.start,
      start ≤ k := by
    intro start ls
    induction ls generalizing start with
    | nil => simp [numbered]
    | cons l ls ih =>
        intro k hk
        rcases List.mem_cons.1 hk with rfl | hk
        · exact Nat.le_refl _
        · have hnext := ih _ k hk
          omega
  induction ls generalizing start with
  | nil => exact .nil
  | cons l ls ih =>
      refine .cons (fun k hk => ?_) (ih _)
      have hnext := hle _ _ k hk
      show start < k
      omega

theorem exists_of_mem_numbered {start : Nat} {ls : List Text} {l : Line}
    (h : l ∈ numbered start ls) :
    ∃ above below, ls = above ++ l.raw :: below ∧ start + (closed above).length = l.start := by
  induction ls generalizing start with
  | nil => cases h
  | cons m ls ih =>
      rcases List.mem_cons.1 h with rfl | h
      · exact ⟨[], ls, rfl, rfl⟩
      · obtain ⟨above, below, rfl, hstart⟩ := ih h
        refine ⟨m :: above, below, rfl, ?_⟩
        rw [← hstart, closed_cons, List.length_append, List.length_cons]
        omega

/-- Lines of a text that follow each other are numbered from the first one on, and closed they stand
in the text. -/
theorem numbered_of_isChain {t : Text} {first : Line} {rest : List Line}
    (hlines : ∀ l ∈ first :: rest, IsLineOf t l)
    (hchain : (first :: rest).IsChain fun upper lower => upper.stop = lower.start) :
    first :: rest = numbered first.start ((first :: rest).map Line.raw) ∧
      closed ((first :: rest).map Line.raw) <+: t.drop first.start := by
  induction rest generalizing first with
  | nil => exact ⟨rfl, by simpa using (hlines first (by simp)).reads⟩
  | cons second rest ih =>
      obtain ⟨hfirst, hrest⟩ := List.forall_mem_cons.1 hlines
      obtain ⟨hstop, hchain⟩ := List.isChain_cons_cons.1 hchain
      obtain ⟨hnumbered, hbefore⟩ := ih hrest hchain
      have hstart : second.start = first.start + first.raw.length + 1 := hstop.symm
      constructor
      · rw [List.map_cons, numbered, ← hstart, ← hnumbered]
      · obtain ⟨below, hbelow⟩ := hfirst.reads
        obtain ⟨more, hmore⟩ := hbefore
        refine ⟨more, ?_⟩
        have hdrop : t.drop second.start = below := by
          rw [hstart, Nat.add_assoc, ← List.drop_drop, ← hbelow]
          have hlength : first.raw.length + 1 = (first.raw ++ [Sym.lineFeed]).length := by simp
          rw [hlength, List.drop_left]
        rw [List.map_cons, closed_cons, ← hbelow, ← hdrop, ← hmore]
        simp

/-! ## The search and the split -/

theorem isBlank_text (l : Line) : isBlank l.text = isBlank l.raw := isBlank_withoutReturn l.raw

theorem isComment_text (l : Line) : isComment l.text = isComment l.raw :=
  isComment_withoutReturn l.raw

/-- The complete lines above the offset `bol`. -/
structure LinesAbove (t : Text) (bol : Nat) (ls : List Text) : Prop where
  lineFeed_notMem : ∀ l ∈ ls, Sym.lineFeed ∉ l
  take_eq : t.take bol = closed ls
  le_length : bol ≤ t.length

namespace LinesAbove

variable {t : Text} {bol : Nat} {ls above below : List Text} {raw : Text}

theorem exists_of_startsLine (h : Edit.StartsLine t bol) : ∃ ls, LinesAbove t bol ls := by
  obtain ⟨ls, hls, htake⟩ := exists_take_eq_closed h
  exact ⟨ls, hls, htake, le_length_of_startsLine h⟩

variable (h : LinesAbove t bol ls)
include h

theorem length_eq : (closed ls).length = bol := by
  rw [← h.take_eq, List.length_take, Nat.min_eq_left h.le_length]

theorem length_le (heq : ls = above ++ below) : (closed above).length ≤ bol := by
  rw [← h.length_eq, heq, closed_append, List.length_append]
  omega

theorem isLineOf (heq : ls = above ++ raw :: below) :
    IsLineOf t ⟨(closed above).length, raw⟩ := by
  have ht : t = closed above ++ (raw ++ .lineFeed :: (closed below ++ t.drop bol)) := by
    conv_lhs => rw [← List.take_append_drop bol t, h.take_eq, heq]
    simp
  exact .of_eq (h.lineFeed_notMem raw (by simp [heq])) ht

theorem stop_le (heq : ls = above ++ raw :: below) :
    Line.stop ⟨(closed above).length, raw⟩ ≤ bol := by
  have heq' : ls = (above ++ [raw]) ++ below := by simp [heq]
  have hle := h.length_le heq'
  simpa [Line.stop, Nat.add_assoc] using hle

/-- A line above is one of these lines, and it starts where they say. -/
theorem exists_of_isLineOf {l : Line} (hl : IsLineOf t l) (hbol : l.stop ≤ bol) :
    ∃ above below, ls = above ++ l.raw :: below ∧ l.start = (closed above).length :=
  hl.exists_above hbol h.lineFeed_notMem h.take_eq

/-- Lines that reach down equally far are the same. -/
theorem eq_of_length_eq {upper lower : List Text} (heq : ls = above ++ below)
    (heq' : ls = upper ++ lower) (hlength : (closed above).length = (closed upper).length) :
    above = upper := by
  have hall : closed above ++ closed below = closed upper ++ closed lower := by
    rw [← closed_append, ← closed_append, ← heq, ← heq']
  have habove : ∀ l ∈ above, Sym.lineFeed ∉ l := fun l hl => h.lineFeed_notMem l (by simp [heq, hl])
  have hupper : ∀ l ∈ upper, Sym.lineFeed ∉ l := fun l hl =>
    h.lineFeed_notMem l (by simp [heq', hl])
  exact closed_inj habove hupper (List.append_inj_left hall hlength)

theorem blankBetween (heq : ls = above ++ below) (hblank : ∀ l ∈ below, isBlank l) :
    BlankBetween t (closed above).length bol := by
  intro l hl hstart hstop
  obtain ⟨upper, lower, heq', hupper⟩ := h.exists_of_isLineOf hl hstop
  rw [isBlank_text]
  refine hblank l.raw ?_
  rcases List.append_eq_append_iff.1 (heq.symm.trans heq') with ⟨v, -, hv⟩ | ⟨v, habove, hv⟩
  · rw [hv]
    simp
  · cases v with
    | nil =>
        rw [List.nil_append] at hv
        rw [← hv]
        simp
    | cons s v =>
        -- The line would start above the end of `above`.
        rw [habove, closed_append, List.length_append, closed_cons, List.length_append,
          List.length_cons, ← hupper] at hstart
        omega

theorem isBlank_of_blankBetween {start : Nat} (heq : ls = above ++ below)
    (hbetween : BlankBetween t start bol) (hstart : start ≤ (closed above).length) :
    ∀ l ∈ below, isBlank l := by
  intro l hl
  obtain ⟨between, after, rfl⟩ := List.append_of_mem hl
  rw [← List.append_assoc] at heq
  have hlower : start ≤ (closed (above ++ between)).length := by
    rw [closed_append, List.length_append]
    omega
  have hline := hbetween _ (h.isLineOf heq) hlower (h.stop_le heq)
  rwa [isBlank_text] at hline

theorem runAbove?_eq {upper comment gap : List Text} (hsplit : Split ls upper comment gap) :
    runAbove? t bol = Run.ofLines? (closed upper).length comment := by
  rw [runAbove?, h.take_eq, completeLines_closed h.lineFeed_notMem,
    runOfReversed?_numbered 0 hsplit, Nat.zero_add]

end LinesAbove

/-! ## No comment -/

section Search

variable {t : Text} {bol : Nat} {ls upper comment gap : List Text} (h : LinesAbove t bol ls)
include h

/-- Nothing is found iff all lines above are blank or the nearest other one is no comment line. -/
theorem runAbove?_eq_none_iff :
    runAbove? t bol = none ↔
      BlankBetween t 0 bol ∨
        ∃ l, IsLineOf t l ∧ l.stop ≤ bol ∧ isBlank l.text = false ∧ isComment l.text = false ∧
          BlankBetween t l.stop bol := by
  have hsplit := split_self ls
  rw [h.runAbove?_eq hsplit, Run.ofLines?_eq_none_iff]
  constructor
  · intro hnil
    have heq := hsplit.eq
    rw [hnil, List.append_nil] at heq
    rcases List.eq_nil_or_concat' (beforeComment ls) with hupper | ⟨above, raw, hupper⟩
    · left
      rw [hupper] at heq
      exact h.blankBetween heq hsplit.isBlank_of_mem
    · right
      have hlast : (beforeComment ls).getLast? = some raw := by rw [hupper, List.getLast?_concat]
      have hbetween := h.blankBetween heq hsplit.isBlank_of_mem
      rw [hupper, List.append_assoc, List.singleton_append] at heq
      refine ⟨⟨(closed above).length, raw⟩, h.isLineOf heq, h.stop_le heq, ?_, ?_, ?_⟩
      · rw [isBlank_text]
        exact hsplit.upper_not_blank hnil raw hlast
      · rw [isComment_text]
        exact hsplit.upper_not_comment raw hlast
      · simpa [hupper, Line.stop, Nat.add_assoc] using hbetween
  · intro hnone
    -- Either way the lines are split without a comment, and there is one split only.
    rcases hnone with hall | ⟨l, hl, hstop, hnotBlank, hnotComment, hbetween⟩
    · have hblank := h.isBlank_of_blankBetween (List.nil_append ls).symm hall (Nat.zero_le _)
      have hnil : Split ls [] [] ls := ⟨rfl, hblank, by simp, by simp, by simp⟩
      exact hnil.eq_parts.2.1
    · obtain ⟨above, below, heq, hstart⟩ := h.exists_of_isLineOf hl hstop
      rw [isBlank_text] at hnotBlank
      rw [isComment_text] at hnotComment
      rw [← List.singleton_append, ← List.append_assoc] at heq
      have hreach : l.stop ≤ (closed (above ++ [l.raw])).length := by
        simp [Line.stop, hstart, Nat.add_assoc]
      have hlast {m : Text} (hm : (above ++ [l.raw]).getLast? = some m) : m = l.raw := by
        rw [List.getLast?_concat] at hm
        exact (Option.some.inj hm).symm
      have hnil : Split ls (above ++ [l.raw]) [] below := by
        refine ⟨by rw [heq, List.append_nil], h.isBlank_of_blankBetween heq hbetween hreach,
          by simp, fun m hm => ?_, fun _ m hm => ?_⟩
        · rw [hlast hm]
          exact hnotComment
        · rw [hlast hm]
          exact hnotBlank
      exact hnil.eq_parts.2.1

/-! ## The nearest comment -/

/-- The comment of a split is the nearest one. -/
theorem isNearest_of_split (hsplit : Split ls upper comment gap) {r : Run}
    (hr : Run.ofLines? (closed upper).length comment = some r) : IsNearest t bol r := by
  have hall := Run.all_of_ofLines? hr
  have hstart := Run.start_of_ofLines? hr
  have hstop := Run.stop_of_ofLines? hr
  have heq := hsplit.eq
  have hreach : r.stop = (closed (upper ++ comment)).length := by
    rw [hstop, closed_append, List.length_append]
  constructor
  case isLine =>
    intro l hl
    rw [hall] at hl
    obtain ⟨before, after, hcomment, hline⟩ := exists_of_mem_numbered hl
    have hsplitAt : ls = (upper ++ before) ++ l.raw :: (after ++ gap) := by
      rw [heq, hcomment]
      simp
    have hl : l = ⟨(closed (upper ++ before)).length, l.raw⟩ := by
      rw [closed_append, List.length_append, hline]
    rw [hl, isComment_text]
    exact ⟨h.isLineOf hsplitAt, hsplit.isComment_of_mem l.raw (by simp [hcomment])⟩
  case touching =>
    rw [hall]
    exact isChain_numbered _ _
  case increasing =>
    rw [hall]
    exact pairwise_start_numbered _ _
  case stop_le =>
    rw [hreach]
    exact h.length_le heq
  case gap =>
    refine ⟨gap, fun l hl => ⟨hsplit.isBlank_of_mem l hl,
      h.lineFeed_notMem l (by simp [heq, hl])⟩, ?_⟩
    rw [h.take_eq, heq, closed_append, hreach, List.drop_left]
  case maximal =>
    intro l hl htouches
    -- A line that ends where the run starts is the last one above it, which is no comment.
    have hle := h.length_le (heq.trans (List.append_assoc ..))
    obtain ⟨above, below, heq', habove⟩ := h.exists_of_isLineOf hl (by omega)
    rw [← List.singleton_append, ← List.append_assoc] at heq'
    have hupper : above ++ [l.raw] = upper := by
      refine h.eq_of_length_eq heq' (heq.trans (List.append_assoc ..)) ?_
      rw [← hstart, ← htouches]
      simp [Line.stop, habove, Nat.add_assoc]
    rw [isComment_text]
    exact hsplit.upper_not_comment l.raw (by rw [← hupper, List.getLast?_concat])

/-- The nearest comment is that of a split. -/
theorem exists_split_of_isNearest {r : Run} (hr : IsNearest t bol r) :
    ∃ upper comment gap, Split ls upper comment gap ∧
      Run.ofLines? (closed upper).length comment = some r := by
  have hlines : ∀ l ∈ r.all, IsLineOf t l := fun l hl => (hr.isLine l hl).1
  have hfirst : IsLineOf t r.first := hlines r.first (List.mem_cons_self ..)
  obtain ⟨hnumbered, hstands⟩ := numbered_of_isChain hlines hr.touching
  obtain ⟨upper, hupper, habove⟩ := exists_take_eq_closed hfirst.starts
  obtain ⟨gap, hgap, hbelow⟩ := hr.gap
  have hstart : r.first.start = (closed upper).length := by
    rw [← habove, List.length_take, Nat.min_eq_left (le_length_of_startsLine hfirst.starts)]
  have hfound : Run.ofLines? (closed upper).length (r.all.map Line.raw) = some r := by
    unfold Run.ofLines?
    rw [← hstart, show r.all = r.first :: r.rest from rfl, ← hnumbered]
  refine ⟨upper, r.all.map Line.raw, gap, ?_, hfound⟩
  have hraw : ∀ raw ∈ r.all.map Line.raw, isComment raw ∧ Sym.lineFeed ∉ raw := by
    intro raw hmem
    obtain ⟨l, hl, rfl⟩ := List.mem_map.1 hmem
    rw [← isComment_text]
    exact ⟨(hr.isLine l hl).2, (hlines l hl).lineFeed_notMem⟩
  have heq : ls = upper ++ r.all.map Line.raw ++ gap := by
    have hreach : t.take r.stop = closed upper ++ closed (r.all.map Line.raw) := by
      rw [Run.stop_of_ofLines? hfound, List.take_add, ← hstart, habove]
      exact congrArg (closed upper ++ ·) (List.prefix_iff_eq_take.1 hstands).symm
    have hclosed : closed ls = closed (upper ++ r.all.map Line.raw ++ gap) := by
      rw [← h.take_eq, ← List.take_append_drop r.stop (t.take bol), List.take_take,
        Nat.min_eq_left hr.stop_le, hreach, hbelow, closed_append, closed_append]
    refine closed_inj h.lineFeed_notMem ?_ hclosed
    simp only [List.forall_mem_append]
    exact ⟨⟨hupper, fun l hl => (hraw l hl).2⟩, fun l hl => (hgap l hl).2⟩
  refine ⟨heq, fun l hl => (hgap l hl).1, fun l hl => (hraw l hl).1, ?_, by simp [Run.all]⟩
  intro raw hlast
  obtain ⟨before, rfl⟩ := List.getLast?_eq_some_iff.1 hlast
  -- The last line of `upper` touches the run, which is as long as it can be.
  have htouches : Line.stop ⟨(closed before).length, raw⟩ = r.start := by
    rw [Run.start_of_ofLines? hfound]
    simp [Line.stop, Nat.add_assoc]
  have hsplit : ls = before ++ raw :: (r.all.map Line.raw ++ gap) := by simp [heq]
  have hline := h.isLineOf hsplit
  have hcomment := hr.maximal _ hline htouches
  rwa [isComment_text] at hcomment

end Search

/-- **The comment above a line is found exactly.**  At the start of a line the search finds nothing
iff every line above is blank or the nearest other one is no comment line, and it finds the run of
lines that is the nearest comment, and no other. -/
theorem runAbove?_finds_nearest (t : Text) (bol : Nat) (h : Edit.StartsLine t bol) :
    (runAbove? t bol = none ↔
      BlankBetween t 0 bol ∨
        ∃ l, IsLineOf t l ∧ l.stop ≤ bol ∧ isBlank l.text = false ∧ isComment l.text = false ∧
          BlankBetween t l.stop bol) ∧
      ∀ r, runAbove? t bol = some r ↔ IsNearest t bol r := by
  obtain ⟨ls, hls⟩ := LinesAbove.exists_of_startsLine h
  refine ⟨runAbove?_eq_none_iff hls, ?_⟩
  intro r
  constructor
  · intro hr
    rw [hls.runAbove?_eq (split_self ls)] at hr
    exact isNearest_of_split hls (split_self ls) hr
  · intro hr
    obtain ⟨upper, comment, gap, hsplit, hfound⟩ := exists_split_of_isNearest hls hr
    rw [hls.runAbove?_eq hsplit, hfound]

/-- A line of code, two comment lines with different endings, and a line of wide white space. -/
def commentedText : Text := "x = 1\r\n  # one\r\n# two\n\u3000\r\ndef go\n"

theorem runAbove?_finds_nearest_two :
    Edit.StartsLine commentedText 25 ∧
      runAbove? commentedText 25 = some ⟨⟨7, "  # one\r"⟩, [⟨16, "# two"⟩]⟩ ∧
      IsNearest commentedText 25 ⟨⟨7, "  # one\r"⟩, [⟨16, "# two"⟩]⟩ := by
  have hstart : Edit.StartsLine commentedText 25 := Or.inr ⟨24, rfl, by decide +kernel⟩
  have hfound : runAbove? commentedText 25 = some ⟨⟨7, "  # one\r"⟩, [⟨16, "# two"⟩]⟩ := by
    decide +kernel
  exact ⟨hstart, hfound, ((runAbove?_finds_nearest commentedText 25 hstart).2 _).1 hfound⟩

end Comment

end RubyDoc
