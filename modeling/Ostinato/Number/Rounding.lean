/-!
# Rounding to binary64

The positive numbers of the format are the products `m * 2 ^ e` with `m < 2 ^ 53` and
`-1074 ≤ e ≤ 971`. A positive rational is rounded to the nearest of them, and a tie goes to the
even `m`.
-/

namespace Ostinato.Rounding

/-- The natural number nearest to `n / d`, a tie going to the even one. -/
def nearestEven (n d : Nat) : Nat :=
  let q := n / d
  let r := n % d
  if 2 * r < d then q
  else if d < 2 * r then q + 1
  else if q % 2 = 0 then q else q + 1

theorem nearestEven_of_dvd (m d : Nat) (h : 0 < d) : nearestEven (m * d) d = m := by
  simp only [nearestEven, Nat.mul_mod_left, Nat.mul_div_cancel _ h]
  simp [h]

/-- Whether `2 ^ k ≤ n / d`, read without fractions. -/
def twoPowLe (k : Int) (n d : Nat) : Bool :=
  if 0 ≤ k then decide (d * Nat.pow 2 k.toNat ≤ n) else decide (d ≤ n * Nat.pow 2 (-k).toNat)

/-- The exponent of the greatest power of two that is at most `n / d`, both positive. -/
def log2Floor (n d : Nat) : Int :=
  let k := (n.log2 : Int) - (d.log2 : Int)
  if twoPowLe k n d then k else k - 1

/-- The exponent of the grid that `n / d` is rounded on. -/
def gridExponent (n d : Nat) : Int := max (log2Floor n d - 52) (-1074)

/-- `n / d` rounded to 53 significant bits, or to a multiple of `2 ^ (-1074)` below them. -/
def toGrid (n d : Nat) : Rat :=
  let e := gridExponent n d
  if 0 ≤ e then ((nearestEven n (d * Nat.pow 2 e.toNat) * Nat.pow 2 e.toNat : Nat) : Rat)
  else mkRat (nearestEven (n * Nat.pow 2 (-e).toNat) d : Nat) (Nat.pow 2 (-e).toNat)

/-- The least rational that is rounded past the greatest finite number. -/
def overflowBound : Rat := (Nat.pow 2 1024 : Rat)

end Ostinato.Rounding
