import RubyDoc.Text.CaseTable
import RubyDoc.Text.Sym

/-!
# Letter case

The small letter of a code point, and all code points that stand for the same letter when case does
not matter.
-/

namespace RubyDoc.Text

/-- The small letter of a code point; itself if it is no capital. -/
def smallLetter (n : Nat) : Nat :=
  if n < 0x80 then if 0x41 ≤ n && n ≤ 0x5A then n + 0x20 else n
  else
    match wideCapitals.find? fun (first, last, step, _) =>
        first ≤ n && n ≤ last && (n - first) % step == 0 with
    | some (first, _, _, small) => small + (n - first)
    | none => n

/-- The capitals of a small letter. -/
def capitalsOf (n : Nat) : List Nat :=
  (if 0x61 ≤ n && n ≤ 0x7A then [n - 0x20] else []) ++
    wideCapitals.filterMap fun (first, last, step, small) =>
      if small ≤ n && first + (n - small) ≤ last && (n - small) % step == 0 then
        some (first + (n - small))
      else none

/-- The code points that are the same letter as `n` when case does not matter, `n` among them. -/
def caseVariants (n : Nat) : List Nat :=
  let small := smallLetter n
  let twins := (caseTwins.find? fun group => group.contains small).getD [small]
  twins.flatMap fun k => k :: capitalsOf k

end RubyDoc.Text
