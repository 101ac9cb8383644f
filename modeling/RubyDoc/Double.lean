/-!
# Whole numbers among doubles

A decimal number is kept as a double: fifty-three binary digits, the nearest such number, and of two
equally near ones the even one.  What a reader of switches needs of it is only whether the double is
a whole number, and which; exact arithmetic on numerator and denominator decides that.
-/

namespace RubyDoc.Double

/-- The greatest `e` with `2 ^ e ≤ num / den`. -/
def floorLog2 (num den : Nat) : Int :=
  let e : Int := (num.log2 : Int) - den.log2
  let reaches := if 0 ≤ e then den <<< e.toNat ≤ num else den ≤ num <<< (-e).toNat
  if reaches then e else e - 1

/-- The whole number nearest to `num / den`, the even one of two. -/
def roundHalfEven (num den : Nat) : Nat :=
  let q := num / den
  let r := num % den
  if den < 2 * r ∨ (2 * r = den ∧ q % 2 = 1) then q + 1 else q

/-- The double nearest to `num / den` if it is a whole number. -/
def whole? (num den : Nat) : Option Nat :=
  if num = 0 then some 0
  else
    let digit := floorLog2 num den - 52
    let unit := if digit < -1074 then -1074 else digit
    if 0 ≤ unit then
      let n := roundHalfEven num (den <<< unit.toNat) <<< unit.toNat
      if n < 1 <<< 1024 then some n else none
    else
      let scale := 1 <<< (-unit).toNat
      let n := roundHalfEven (num * scale) den
      if n % scale = 0 then some (n / scale) else none

/-- The double nearest to `digits * 10 ^ exponent` if it is a whole number.  Far out the magnitude
alone decides: nothing is left of such small numbers, and such large ones are infinite. -/
def wholeDecimal? (digits : Nat) (exponent : Int) : Option Nat :=
  let magnitude : Int := (Nat.toDigits 10 digits).length + exponent
  if digits = 0 ∨ magnitude < -400 then some 0
  else if 400 < magnitude then none
  else if 0 ≤ exponent then whole? (digits * Nat.pow 10 exponent.toNat) 1
  else whole? digits (Nat.pow 10 (-exponent).toNat)

end RubyDoc.Double
