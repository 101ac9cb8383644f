import RubyDoc.Signature.MethodType
import RubyDoc.Proofs.Signature.Closed
import RubyDoc.Proofs.Text.Search

/-!
# The first overload

A bar begins a further overload if it stands outside brackets, behind an arrow, and before a bracket
that opens type parameters or parameters.  A bar between quotes is no such bar where quotes enclose
no brackets.  Closed parts of a text without a bar outside brackets are therefore passed over, and
the first overload is cut off in front of the next one (`firstOverload_join`).
-/

namespace RubyDoc.Signature

open Text

/-! ## Openings of an overload -/

theorem opensOverload_append_left {w : Text} (hw : isBlank w) (t : Text) :
    opensOverload (w ++ t) = opensOverload t := by
  rw [opensOverload, trimLeft_append, if_pos hw, opensOverload]

theorem opensOverload_append {t : Text} (h : opensOverload t) (u : Text) :
    opensOverload (t ++ u) := by
  have hblank : ¬ isBlank t := by
    intro hblank
    rw [← List.append_nil t, opensOverload_append_left hblank] at h
    cases h
  have happend (head : Text) (hhead : (trimLeft t).startsWith head) :
      (trimLeft t ++ u).startsWith head := by
    obtain ⟨rest, hrest⟩ := startsWith_iff.1 hhead
    exact startsWith_iff.2 ⟨rest ++ u, by rw [hrest, List.append_assoc]⟩
  rw [opensOverload, Bool.or_eq_true] at h
  rw [opensOverload, trimLeft_append, if_neg hblank, Bool.or_eq_true]
  exact h.imp (happend _) (happend _)

theorem not_opensOverload_cons {s : Sym} (h : isOpening s = false) (hs : s.isBlank = false)
    (t : Text) : opensOverload (s :: t) = false := by
  have htrim : trimLeft (s :: t) = s :: t := trimLeft_of_head fun c hc => by
    rwa [← Option.some.inj hc]
  have hstart {c : Sym} (hc : isOpening c) : startsWith (s :: t) [c] = false := by
    refine Bool.eq_false_iff.2 fun hstart => ?_
    obtain ⟨rest, hrest⟩ := startsWith_iff.1 hstart
    rw [(List.cons.inj hrest).1, hc] at h
    cases h
  rw [opensOverload, htrim, Bool.or_eq_false_iff]
  exact ⟨hstart (c := .char '(') rfl, hstart (c := .char '[') rfl⟩

/-- Between quotes stands no bracket. -/
theorem not_opensOverload_quoted {q : Sym} {content : Text} (hq : isQuote q)
    (hcontent : ∀ s ∈ content, IsPlain s) (t : Text) :
    opensOverload (content ++ q :: t) = false := by
  induction content with
  | nil =>
      exact not_opensOverload_cons (isOpening_of_quote hq)
        (isBlank_of_mem_delimiters (mem_delimiters_of_quote hq)) t
  | cons s content ih =>
      obtain ⟨hs, hcontent⟩ := List.forall_mem_cons.1 hcontent
      cases hblank : s.isBlank with
      | true =>
          have hs : isBlank [s] := by simp [isBlank, hblank]
          rw [List.cons_append, ← List.singleton_append, opensOverload_append_left hs]
          exact ih hcontent
      | false => exact not_opensOverload_cons hs.opening hblank _

/-! ## Passing over closed parts -/

/-- Before `u`, the search for a further overload passes over `t`, which leads from `d` open
brackets to `e`.  An arrow that was seen stays seen. -/
def PassesOver (d : Int) (t : Text) (e : Int) (u : Text) : Prop :=
  ∀ arrow : Bool, ∃ seen : Bool, (arrow → seen) ∧
    overloadFrom d arrow (t ++ u) = t ++ overloadFrom e seen u

namespace PassesOver

variable {d e : Int} {t u : Text}

theorem nil : PassesOver d [] d u := fun arrow => ⟨arrow, id, rfl⟩

theorem cons {s : Sym} (h : ¬ (d = 0 ∧ s = .char '|' ∧ opensOverload (t ++ u)))
    (ht : PassesOver (d + bracketStep s) t e u) : PassesOver d (s :: t) e u := by
  intro arrow
  have hbar : ¬ (d = 0 ∧ arrow ∧ s = .char '|' ∧ opensOverload (t ++ u)) :=
    fun hcut => h ⟨hcut.1, hcut.2.2⟩
  obtain ⟨seen, hseen, heq⟩ :=
    ht (arrow || (d == 0 && s = .char '-' && (t ++ u).head? = some (.char '>')))
  refine ⟨seen, fun harrow => hseen (by rw [harrow, Bool.true_or]), ?_⟩
  rw [List.cons_append, overloadFrom, if_neg hbar, List.cons_append]
  exact congrArg (s :: ·) heq

theorem append {v : Text} {m : Int} (ht : PassesOver d t m (v ++ u)) (hv : PassesOver m v e u) :
    PassesOver d (t ++ v) e u := by
  intro arrow
  obtain ⟨seen, hseen, heq⟩ := ht arrow
  obtain ⟨seen', hseen', heq'⟩ := hv seen
  exact ⟨seen', hseen' ∘ hseen, by rw [List.append_assoc, heq, heq', List.append_assoc]⟩

theorem quoted {q : Sym} (hq : isQuote q) {content : Text} (hcontent : ∀ s ∈ content, IsPlain s)
    (ht : PassesOver d t e u) : PassesOver d (content ++ q :: t) e u := by
  induction content with
  | nil =>
      refine .cons ?_ (by rwa [bracketStep_of_quote hq, Int.add_zero])
      rintro ⟨-, rfl, -⟩
      cases hq
  | cons s content ih =>
      obtain ⟨hs, hcontent⟩ := List.forall_mem_cons.1 hcontent
      refine .cons ?_ (by rw [hs.bracketStep_eq, Int.add_zero]; exact ih hcontent)
      rintro ⟨-, -, hopens⟩
      have happend : content ++ q :: t ++ u = content ++ q :: (t ++ u) := by simp
      rw [show content.append (q :: t) ++ u = _ from happend,
        not_opensOverload_quoted hq hcontent] at hopens
      cases hopens

/-- A closed part is passed over if it stands in brackets or has no bar outside brackets. -/
theorem of_closed {cuts : List Sym} (ht : Closed cuts t) (hd : 0 < d ∨ d = 0 ∧ .char '|' ∈ cuts) :
    PassesOver d t d u := by
  induction ht generalizing d u with
  | nil => exact .nil
  | plain hs hcuts _ ih =>
      refine .cons ?_ (by rw [hs.bracketStep_eq, Int.add_zero]; exact ih hd)
      -- No bar cuts in brackets, and outside of them there is none.
      rintro ⟨rfl, rfl, -⟩
      exact hcuts (hd.resolve_left (by omega)).2
  | @bracket cuts o c inner t ho hc _ _ ihinner ih =>
      -- Inside the brackets nothing cuts.
      have hclose : PassesOver (d + 1) (c :: t) d u := by
        refine .cons ?_ (by rw [bracketStep_of_closing hc, Int.add_neg_cancel_right]; exact ih hd)
        rintro ⟨-, rfl, -⟩
        cases hc
      refine .cons ?_ ?_
      · rintro ⟨-, rfl, -⟩
        cases ho
      · rw [bracketStep_of_opening ho]
        exact (ihinner (Or.inl (by omega))).append hclose
  | @quoted cuts q content t hq hcontent _ ih =>
      refine .cons ?_ ?_
      · rintro ⟨-, rfl, -⟩
        cases hq
      · rw [bracketStep_of_quote hq, Int.add_zero]
        exact (ih hd).quoted hq hcontent

end PassesOver

/-! ## Cutting off -/

theorem overloadFrom_arrow (arrow : Bool) (t : Text) :
    overloadFrom 0 arrow (Text.ofString "->" ++ t) =
      Text.ofString "->" ++ overloadFrom 0 true t := by
  show overloadFrom 0 arrow (.char '-' :: .char '>' :: t) = _
  rw [overloadFrom, if_neg (by simp)]
  dsimp only
  rw [overloadFrom, if_neg (by simp)]
  simp [bracketStep, isOpening, isClosing, Text.ofString]

theorem overloadFrom_bar {t : Text} (h : opensOverload t) :
    overloadFrom 0 true (.char '|' :: t) = [] := by
  rw [overloadFrom, if_pos ⟨rfl, rfl, rfl, h⟩]

theorem opensOverload_join {sep t : Text} (ts : List Text) (h : opensOverload t) :
    opensOverload (Text.join sep (t :: ts)) := by
  cases ts with
  | nil => exact h
  | cons v rest =>
      rw [Text.join, List.append_assoc]
      exact opensOverload_append h _

/-- The first overload of a method type, without those that follow it. -/
theorem firstOverload_join {before result : Text} {later : List Text}
    (hbefore : Closed [.char '|'] before) (hresult : Closed [.char '|'] result)
    (htrim : IsTrimmed (before ++ (Text.ofString "->" ++ result)))
    (hlater : ∀ t ∈ later, opensOverload t) :
    firstOverload (Text.join " | " ((before ++ (Text.ofString "->" ++ result)) :: later)) =
      before ++ (Text.ofString "->" ++ result) := by
  have hbar : (0 : Int) < 0 ∨ (0 : Int) = 0 ∧ Sym.char '|' ∈ [Sym.char '|'] :=
    Or.inr ⟨rfl, List.mem_singleton_self _⟩
  have hpass (u : Text) : overloadFrom 0 false (before ++ (Text.ofString "->" ++ result) ++ u) =
      before ++ (Text.ofString "->" ++ result) ++ overloadFrom 0 true u := by
    -- Whether an arrow was seen before, say in quotes, does not matter: here is one.
    obtain ⟨arrow, -, hread⟩ := PassesOver.of_closed hbefore hbar false
    obtain ⟨seen, hseen, hread'⟩ := PassesOver.of_closed (u := u) hresult hbar true
    rw [List.append_assoc, hread, List.append_assoc, overloadFrom_arrow, hread', hseen rfl]
    simp only [List.append_assoc]
  cases later with
  | nil =>
      have hall := hpass []
      rw [List.append_nil, overloadFrom, List.append_nil] at hall
      rw [Text.join, firstOverload, hall, htrim.trim_eq]
  | cons t ts =>
      have hspace : Closed [.char '|'] [.char ' '] := .of_isBlank (by decide) (by decide)
      have hopens : opensOverload (.char ' ' :: Text.join " | " (t :: ts)) := by
        rw [← List.singleton_append, opensOverload_append_left (by decide)]
        exact opensOverload_join ts (hlater t (List.mem_cons_self ..))
      have hcut : overloadFrom 0 true (Text.ofString " | " ++ Text.join " | " (t :: ts)) =
          [.char ' '] := by
        have hover : PassesOver 0 [.char ' '] 0
            (.char '|' :: .char ' ' :: Text.join " | " (t :: ts)) := .of_closed hspace hbar
        obtain ⟨seen, hseen, hread⟩ := hover true
        rw [hseen rfl, overloadFrom_bar hopens] at hread
        exact hread
      rw [Text.join, firstOverload, List.append_assoc, hpass, hcut, trim_append_right (by decide),
        htrim.trim_eq]

end RubyDoc.Signature
