import Ostinato.Proofs.Number.Sum

/-!
# Results in range

Whole numbers up to `2 ^ 53` are exact, with their sums and differences. A result whose exact value is
within a power of two below the greatest one is a number, and within the same power of two.
-/

namespace Ostinato

namespace Rounding

theorem onGrid_natCast {n : Nat} (h : n ≤ 2 ^ 53) : OnGrid n := by
  rcases Nat.eq_or_lt_of_le h with rfl | less
  · exact ⟨2 ^ 52, 1, by norm_num, by norm_num, by norm_num⟩
  · exact ⟨n, 0, less, by norm_num, by simp⟩

theorem two_pow_lt_overflowBound {k : Nat} (h : k < 1024) : (2 : ℚ) ^ k < overflowBound := by
  have greatest : (2 : ℚ) ^ 1023 < overflowBound := by decide +kernel
  exact (pow_le_pow_right₀ (by norm_num) (by omega)).trans_lt greatest

theorem toGrid_le_two_zpow {n d : Nat} (hn : 0 < n) (hd : 0 < d) {k : Int} (hk : -1074 ≤ k)
    (h : (n : ℚ) / d ≤ 2 ^ k) : toGrid n d ≤ 2 ^ k := by
  have fits : gridExponent n d ≤ k := by
    refine gridExponent_le hn hd hk (h.trans_lt ?_)
    exact zpow_lt_zpow_right₀ (by norm_num) (by omega)
  simpa using toGrid_le (m := 1) hd fits (by simpa using h)

end Rounding

namespace Binary64

open Rounding

/-! ### Exact whole numbers -/

theorem ofRat_natCast {n : Nat} (h : n ≤ 2 ^ 53) : ofRat n = finite n := by
  rcases n.eq_zero_or_pos with rfl | pos
  · simp
  · refine ofRat_of_onGrid (Nat.cast_pos.mpr pos) (onGrid_natCast h) ?_
    calc (n : ℚ) ≤ 2 ^ 53 := by exact_mod_cast h
      _ < overflowBound := two_pow_lt_overflowBound (by norm_num)

theorem ofInt?_of_le {n : Nat} (h : n ≤ 2 ^ 53) : ofInt? n = .ok (finite n) := by
  rw [ofInt?, ofInt, Int.cast_natCast, ofRat_natCast h]

/-- A beat that is counted from another one, both from one on, is exact up to `2 ^ 53`. -/
theorem add_sub_one {m n : Nat} (hn : 1 ≤ n) (h : m + n ≤ 2 ^ 53) :
    ((finite m).add (finite n)).sub (finite 1) = finite (m + n - 1 : Nat) := by
  have sum : (finite (m : ℚ)).add (finite n) = finite (m + n : Nat) := by
    rw [← ofRat_natCast h, Nat.cast_add]
    rfl
  have pred : ((m + n : Nat) : ℚ) - 1 = (m + n - 1 : Nat) := by
    rw [Nat.cast_sub (by omega), Nat.cast_one]
  rw [sum, finite_sub_one, pred, ofRat_natCast (by omega)]

/-! ### Sums and products -/

/-- A sum is the exact sum, rounded, up to the sign of zero. -/
theorem place_add {x y : Binary64} {p q : ℚ} (hx : x.toRat? = some p) (hy : y.toRat? = some q) :
    (x.add y).place = (ofRat (p + q)).place := by
  cases x with
  | nan => cases hx
  | infinity s => cases hx
  | negativeZero =>
    obtain rfl : 0 = p := Option.some.inj hx
    cases y with
    | nan => cases hy
    | infinity s => cases hy
    | _ =>
      obtain rfl := Option.some.inj hy
      rw [zero_add]
      rfl
  | finite s =>
    obtain rfl : s = p := Option.some.inj hx
    cases y with
    | nan => cases hy
    | infinity s => cases hy
    | negativeZero =>
      obtain rfl : 0 = q := Option.some.inj hy
      rw [add_zero]
      rfl
    | finite r =>
      obtain rfl : r = q := Option.some.inj hy
      rfl

/-- A product is the exact product, rounded, up to the sign of zero. -/
theorem place_mul {x y : Binary64} {p q : ℚ} (hx : x.toRat? = some p) (hy : y.toRat? = some q) :
    (x.mul y).place = (ofRat (p * q)).place := by
  have product : x.mul y = if p * q = 0 then zero (xor x.isNegative y.isNegative) else ofRat (p * q) := by
    cases x with
    | nan => cases hx
    | infinity s => cases hx
    | negativeZero =>
      cases y with
      | nan => cases hy
      | infinity s => cases hy
      | _ => simp [mul, ← Option.some.inj hx]
    | finite s =>
      cases y with
      | nan => cases hy
      | infinity s => cases hy
      | _ => simp [mul, ← Option.some.inj hx, ← Option.some.inj hy]
  rw [product]
  split_ifs with vanishes
  · rw [vanishes]
    cases xor x.isNegative y.isNegative <;> rfl
  · rfl

theorem toRat?_of_place {x y : Binary64} (h : x.place = y.place) : x.toRat? = y.toRat? := by
  ext q
  rw [toRat?_eq_some_iff, toRat?_eq_some_iff, h]

theorem toRat?_add {x y : Binary64} {p q : ℚ} (hx : x.toRat? = some p) (hy : y.toRat? = some q) :
    (x.add y).toRat? = (ofRat (p + q)).toRat? := toRat?_of_place (place_add hx hy)

theorem toRat?_mul {x y : Binary64} {p q : ℚ} (hx : x.toRat? = some p) (hy : y.toRat? = some q) :
    (x.mul y).toRat? = (ofRat (p * q)).toRat? := toRat?_of_place (place_mul hx hy)

/-! ### Bounded results -/

theorem natAbs_num_div_den_eq_abs (q : ℚ) : (q.num.natAbs : ℚ) / q.den = |q| := by
  conv_rhs => rw [← Rat.num_div_den q]
  rw [abs_div, Nat.abs_cast, Nat.cast_natAbs, Int.cast_abs]

theorem toRat?_ofRat_of_abs_le {q : ℚ} {k : Nat} (hk : k < 1024) (h : |q| ≤ 2 ^ k) :
    ∃ r, (ofRat q).toRat? = some r ∧ |r| ≤ 2 ^ k := by
  rcases eq_or_ne q 0 with rfl | nonzero
  · exact ⟨0, rfl, by simp⟩
  · have num_pos : 0 < q.num.natAbs := Int.natAbs_pos.mpr (Rat.num_ne_zero.mpr nonzero)
    have value := natAbs_num_div_den_eq_abs q
    have bound : toGrid q.num.natAbs q.den ≤ 2 ^ k := by
      have := toGrid_le_two_zpow (k := k) num_pos q.den_pos (by omega) (by rw [value]; exact_mod_cast h)
      exact_mod_cast this
    have nonneg := toGrid_nonneg q.num.natAbs q.den
    have small : ¬ overflowBound ≤ toGrid q.num.natAbs q.den :=
      not_le.mpr (bound.trans_lt (two_pow_lt_overflowBound hk))
    unfold ofRat
    simp only [Rat.num_ne_zero.mpr nonzero, small, if_false]
    split_ifs with negative vanishes
    · exact ⟨0, rfl, by simp⟩
    · exact ⟨_, rfl, by rwa [abs_neg, abs_of_nonneg nonneg]⟩
    · exact ⟨_, rfl, by rwa [abs_of_nonneg nonneg]⟩

theorem toRat?_add_of_abs_le {x y : Binary64} {p q : ℚ} {k : Nat} (hk : k < 1024)
    (hx : x.toRat? = some p) (hy : y.toRat? = some q) (h : |p + q| ≤ 2 ^ k) :
    ∃ r, (x.add y).toRat? = some r ∧ |r| ≤ 2 ^ k := by
  rw [toRat?_add hx hy]
  exact toRat?_ofRat_of_abs_le hk h

theorem toRat?_mul_of_abs_le {x y : Binary64} {p q : ℚ} {k : Nat} (hk : k < 1024)
    (hx : x.toRat? = some p) (hy : y.toRat? = some q) (h : |p * q| ≤ 2 ^ k) :
    ∃ r, (x.mul y).toRat? = some r ∧ |r| ≤ 2 ^ k := by
  rw [toRat?_mul hx hy]
  exact toRat?_ofRat_of_abs_le hk h

theorem abs_intCast_le {n : Int} {k : Nat} (h : n.natAbs ≤ 2 ^ k) : |(n : ℚ)| ≤ 2 ^ k := by
  rw [← Int.cast_abs, Int.abs_eq_natAbs, Int.cast_natCast]
  exact_mod_cast h

theorem exists_quotient {n d : Int} {k : Nat} (hk : k < 1024) (hd : 0 < d) (h : n.natAbs ≤ 2 ^ k) :
    ∃ x p, quotient n d = .ok x ∧ x.toRat? = some p ∧ |p| ≤ 2 ^ k := by
  have hd' : (1 : ℚ) ≤ d := by exact_mod_cast hd
  have bound : |(n : ℚ) / d| ≤ 2 ^ k := by
    rw [abs_div, abs_of_pos (by linarith : (0 : ℚ) < d)]
    exact (div_le_self (abs_nonneg _) hd').trans (abs_intCast_le h)
  obtain ⟨p, hp, hbound⟩ := toRat?_ofRat_of_abs_le hk bound
  refine ⟨ofRat (n / d), p, ?_, hp, hbound⟩
  rw [quotient, if_neg hd.ne']
  cases hx : ofRat ((n : ℚ) / d) with
  | infinity s =>
    rw [hx] at hp
    cases hp
  | _ => rfl

theorem exists_roundHalfUp {x : Binary64} {p : ℚ} {k : Nat} (hk : k < 1023) (hx : x.toRat? = some p)
    (h : |p| ≤ 2 ^ k) : ∃ n, x.roundHalfUp = .ok n := by
  have half : (ofRat (1 / 2)).toRat? = some (1 / 2) := by decide +kernel
  have bound : |p + 1 / 2| ≤ 2 ^ (k + 1) := by
    have one_le : (1 : ℚ) ≤ 2 ^ k := one_le_pow₀ (by norm_num)
    calc |p + 1 / 2| ≤ |p| + |1 / 2| := abs_add_le _ _
      _ ≤ 2 ^ k + 1 / 2 := by rw [abs_of_pos (by norm_num : (0 : ℚ) < 1 / 2)]; gcongr
      _ ≤ 2 ^ (k + 1) := by rw [pow_succ]; linarith
  obtain ⟨r, hr, -⟩ := toRat?_add_of_abs_le (by omega) hx half bound
  unfold roundHalfUp floor
  cases hs : x.add (ofRat (1 / 2)) with
  | nan => rw [hs] at hr; cases hr
  | infinity s => rw [hs] at hr; cases hr
  | negativeZero => exact ⟨_, rfl⟩
  | finite q => exact ⟨_, rfl⟩

end Binary64

end Ostinato
