import Mathlib.Data.Rat.Floor
import Ostinato.Proofs.Number.Rounding
import Ostinato.Proofs.Number.Value

/-!
# Sums of beats

The sum of a whole beat and the beat of an event is rounded once. The result lies on the grid; one less
than a beat is exact up to `2 ^ 53`, and above it the bar that is told from it is one too far exactly on
multiples of four.
-/

namespace Ostinato

namespace Rounding

/-- Above `2 ^ 53` the number before a member of the grid is rounded to it if it is a multiple of four,
and to the number two below it otherwise. -/
theorem toGrid_pred {k : Nat} (h : OnGrid k) (hk : 2 ^ 53 < k) :
    2 ∣ k ∧ toGrid (k - 1) 1 = if 4 ∣ k then (k : ℚ) else (k - 2 : Nat) := by
  obtain ⟨m, e, hm, he, eq⟩ := h
  set g := gridExponent (k - 1) 1
  have positive : 0 < k - 1 := by omega
  have g_pos : 1 ≤ g := by
    have above := lt_two_zpow_gridExponent positive Nat.one_pos
    have low : (2 : ℚ) ^ (53 : Int) ≤ ((k - 1 : Nat) : ℚ) / (1 : Nat) := by
      rw [Nat.cast_one, div_one, ← two_pow_53, Nat.cast_le]
      omega
    have := (zpow_lt_zpow_iff_right₀ (a := (2 : ℚ)) (by norm_num)).mp (low.trans_lt above)
    omega
  have g_le : g ≤ e := by
    refine gridExponent_le positive Nat.one_pos he ?_
    rw [Nat.cast_one, div_one, zpow_add₀ two_ne_zero, ← two_pow_53]
    calc ((k - 1 : Nat) : ℚ) < k := Nat.cast_lt.mpr (by omega)
      _ = m * 2 ^ e := eq
      _ < (2 ^ 53 : Nat) * 2 ^ e := mul_lt_mul_of_pos_right (Nat.cast_lt.mpr hm) (by positivity)
  obtain ⟨d, hd⟩ : ∃ d : Nat, g = (d + 1 : Nat) := ⟨(g - 1).toNat, by omega⟩
  obtain ⟨j, hj⟩ : ∃ j : Nat, k = j * 2 ^ (d + 1) := by
    refine ⟨m * 2 ^ (e - g).toNat, ?_⟩
    rw [coarser_eq m g_le, hd, zpow_natCast] at eq
    rw [hd]
    exact_mod_cast eq
  have j_pos : 0 < j := Nat.pos_of_ne_zero fun h => by simp [h] at hj; omega
  have rounded : toGrid (k - 1) 1 =
      ((if 2 ^ (d + 1) = 2 ∧ j % 2 = 1 then j - 1 else j) * 2 ^ (d + 1) : Nat) := by
    rw [toGrid_eq]
    change (nearestEven ((k - 1) * 2 ^ (-g).toNat) (1 * 2 ^ g.toNat) : ℚ) * 2 ^ g = _
    rw [hd, show (-((d + 1 : Nat) : Int)).toNat = 0 by omega, Int.toNat_natCast, pow_zero, mul_one,
      one_mul, hj, nearestEven_pred j_pos (by rw [pow_succ]; have := Nat.two_pow_pos d; omega),
      zpow_natCast]
    push_cast
    rfl
  rw [rounded]
  cases d with
  | zero =>
    rw [zero_add, pow_one] at hj ⊢
    refine ⟨⟨j, by omega⟩, ?_⟩
    by_cases odd : j % 2 = 1
    · rw [if_pos ⟨rfl, odd⟩, if_neg (by omega), hj]
      congr 1
      omega
    · rw [if_neg (by omega), if_pos (by omega), hj]
  | succ d =>
    have four : 2 ^ (d + 1 + 1) = 4 * 2 ^ d := by ring
    rw [four] at hj ⊢
    have d_pos := Nat.two_pow_pos d
    refine ⟨⟨j * (2 * 2 ^ d), by rw [hj]; ring⟩, ?_⟩
    rw [if_neg (by omega), if_pos ⟨j * 2 ^ d, by rw [hj]; ring⟩, hj]

end Rounding

namespace Binary64
open Rounding

/-! ### Rounded rationals -/

theorem natAbs_num_div_den {q : ℚ} (hq : 0 < q) : (q.num.natAbs : ℚ) / q.den = q := by
  rw [Nat.cast_natAbs, abs_of_pos (Rat.num_pos.mpr hq)]
  exact Rat.num_div_den q

@[simp] theorem ofRat_zero : ofRat 0 = finite 0 := rfl

theorem ofRat_of_pos {q : ℚ} (hq : 0 < q) :
    ofRat q = if overflowBound ≤ toGrid q.num.natAbs q.den then infinity false
      else finite (toGrid q.num.natAbs q.den) := by
  have num_pos := Rat.num_pos.mpr hq
  unfold ofRat
  simp only [num_pos.ne', num_pos.le.not_gt, if_false, decide_false]

theorem ofRat_of_onGrid {q : ℚ} (hq : 0 < q) (h : OnGrid q) (small : q < overflowBound) :
    ofRat q = finite q := by
  have value := natAbs_num_div_den hq
  have same : toGrid q.num.natAbs q.den = q := by
    rw [toGrid_of_onGrid (Int.natAbs_pos.mpr (Rat.num_pos.mpr hq).ne') q.den_pos (by rwa [value]), value]
  rw [ofRat_of_pos hq, same, if_neg small.not_ge]

theorem ofRat_ne_nan (q : ℚ) : ofRat q ≠ nan := by
  unfold ofRat
  dsimp only
  split_ifs <;> simp

theorem ofRat_ne_negativeZero {q : ℚ} (hq : 0 ≤ q) : ofRat q ≠ negativeZero := by
  rcases hq.eq_or_lt with rfl | hq
  · simp
  · rw [ofRat_of_pos hq]
    split_ifs <;> simp

theorem atLeastInt_ofRat {q : ℚ} (hq : 1 ≤ q) : (ofRat q).atLeastInt 1 = true := by
  have q_pos : 0 < q := by linarith
  have low : (1 : ℚ) ≤ toGrid q.num.natAbs q.den := by
    refine two_zpow_le_toGrid (k := 0) (Int.natAbs_pos.mpr (Rat.num_pos.mpr q_pos).ne') q.den_pos
      (by norm_num) ?_
    rw [natAbs_num_div_den q_pos]
    exact hq
  rw [ofRat_of_pos q_pos]
  split_ifs
  · rfl
  · rw [atLeastInt_iff rfl]
    exact_mod_cast low

theorem onGrid_of_toRat?_ofRat {r q : ℚ} (h : (ofRat r).toRat? = some q) (hq : 0 < q) :
    OnGrid q ∧ q < overflowBound := by
  rcases lt_trichotomy r 0 with hr | rfl | hr
  · exfalso
    have num_neg := Rat.num_neg.mpr hr
    have grid_nonneg := toGrid_nonneg r.num.natAbs r.den
    unfold ofRat at h
    simp only [num_neg.ne, num_neg, if_true, if_false] at h
    split_ifs at h
    · cases h
    · obtain rfl : (0 : ℚ) = q := Option.some.inj h
      exact lt_irrefl _ hq
    · obtain rfl : -toGrid r.num.natAbs r.den = q := Option.some.inj h
      linarith
  · obtain rfl : (0 : ℚ) = q := Option.some.inj h
    exact absurd hq (lt_irrefl _)
  · rw [ofRat_of_pos hr] at h
    split_ifs at h with big
    · cases h
    · obtain rfl : toGrid r.num.natAbs r.den = q := Option.some.inj h
      exact ⟨onGrid_toGrid (Int.natAbs_pos.mpr (Rat.num_pos.mpr hr).ne') r.den_pos, not_le.mp big⟩

theorem ofInt?_natCast {n : Nat} {x : Binary64} (h : ofInt? n = .ok x) :
    ∃ p : ℚ, 0 ≤ p ∧ x = finite p := by
  have nonneg : (0 : ℚ) ≤ ((n : Int) : ℚ) := by positivity
  unfold ofInt? ofInt at h
  rcases nonneg.eq_or_lt with zero | pos
  · rw [← zero] at h
    obtain rfl := Except.ok.inj h
    exact ⟨0, le_rfl, rfl⟩
  · rw [ofRat_of_pos pos] at h
    split_ifs at h
    obtain rfl := Except.ok.inj h
    exact ⟨_, toGrid_nonneg _ _, rfl⟩

/-! ### Sums and differences -/

theorem atLeastInt_add {p : ℚ} (hp : 0 ≤ p) {y : Binary64} (hy : y.atLeastInt 1 = true) :
    ((finite p).add y).atLeastInt 1 = true := by
  cases y with
  | nan => exact hy
  | infinity s => exact hy
  | negativeZero => exact absurd hy (by decide)
  | finite r =>
    have hr : (1 : ℚ) ≤ r := by exact_mod_cast (atLeastInt_iff rfl 1).mp hy
    exact atLeastInt_ofRat (by linarith)

theorem finite_sub_one (q : ℚ) : (finite q).sub (finite 1) = ofRat (q - 1) := by
  simp [sub, neg, add, sub_eq_add_neg]

theorem sub_one_of_atLeastInt {x : Binary64} (hx : x.atLeastInt 1 = true) :
    x.sub (finite 1) = infinity false ∨ ∃ q : ℚ, 0 ≤ q ∧ x.sub (finite 1) = ofRat q := by
  cases x with
  | nan => cases hx
  | infinity s =>
    cases s with
    | true => cases hx
    | false => exact .inl rfl
  | negativeZero => exact absurd hx (by decide)
  | finite q =>
    have hq : (1 : ℚ) ≤ q := by exact_mod_cast (atLeastInt_iff rfl 1).mp hx
    exact .inr ⟨q - 1, by linarith, finite_sub_one q⟩

theorem onGrid_sub_one {q : ℚ} (h : OnGrid q) (lower : 1 ≤ q) (upper : q ≤ 2 ^ 53) : OnGrid (q - 1) := by
  obtain ⟨m, e, hm, he, rfl⟩ := h
  rcases le_total e 0 with neg | pos
  · obtain ⟨d, rfl⟩ : ∃ d : Nat, e = -d := ⟨(-e).toNat, by omega⟩
    rw [zpow_neg, zpow_natCast, ← div_eq_mul_inv, le_div_iff₀ (by positivity), one_mul] at lower
    have low : 2 ^ d ≤ m := by exact_mod_cast lower
    refine ⟨m - 2 ^ d, -d, (Nat.sub_le _ _).trans_lt hm, he, ?_⟩
    rw [Nat.cast_sub low, sub_mul, zpow_neg, zpow_natCast]
    push_cast
    rw [mul_inv_cancel₀ (by positivity)]
  · obtain ⟨d, rfl⟩ := Int.eq_ofNat_of_zero_le pos
    rw [zpow_natCast] at lower upper ⊢
    have low : 1 ≤ m * 2 ^ d := by exact_mod_cast lower
    have high : m * 2 ^ d ≤ 2 ^ 53 := by exact_mod_cast upper
    refine ⟨m * 2 ^ d - 1, 0, by omega, by norm_num, ?_⟩
    rw [Nat.cast_sub low]
    push_cast
    ring

theorem exists_even_of_onGrid {q : ℚ} (h : OnGrid q) (big : 2 ^ 53 < q) : ∃ k : Nat, q = k := by
  obtain ⟨m, e, hm, -, rfl⟩ := h
  have e_nonneg : 0 ≤ e := by
    by_contra neg
    have shrinks : (2 : ℚ) ^ e ≤ 1 := zpow_le_one_of_nonpos₀ (by norm_num) (by omega)
    have small : (m : ℚ) < 2 ^ 53 := by exact_mod_cast hm
    have := mul_le_of_le_one_right (Nat.cast_nonneg (α := ℚ) m) shrinks
    linarith
  obtain ⟨d, rfl⟩ := Int.eq_ofNat_of_zero_le e_nonneg
  exact ⟨m * 2 ^ d, by rw [zpow_natCast]; push_cast; rfl⟩

/-- One less than a beat tells the bar of the beat, but not on multiples of four above `2 ^ 53`. -/
theorem floor_sub_one {q : ℚ} (h : OnGrid q) (lower : 1 ≤ q) (small : q < overflowBound) :
    ∃ r, ((finite q).sub (finite 1)).toRat? = some r ∧
      (⌊r / 4⌋ = ⌊(q - 1) / 4⌋ ↔ ¬ (2 ^ 53 < q ∧ ∃ k : Int, q = 4 * k)) := by
  rw [finite_sub_one]
  by_cases big : 2 ^ 53 < q
  · obtain ⟨k, rfl⟩ := exists_even_of_onGrid h big
    have k_big : 2 ^ 53 < k := by exact_mod_cast big
    obtain ⟨even, rounded⟩ := toGrid_pred h k_big
    have pred : (k : ℚ) - 1 = (k - 1 : Nat) := by rw [Nat.cast_sub (by omega), Nat.cast_one]
    have bounded : toGrid (k - 1) 1 < overflowBound := by
      refine lt_of_le_of_lt ?_ small
      rw [rounded]
      split_ifs
      · exact le_rfl
      · exact Nat.cast_le.mpr (Nat.sub_le _ _)
    have floor_div (n : Nat) : ⌊(n : ℚ) / 4⌋ = (n : Int) / 4 := by
      simpa using Rat.floor_natCast_div_natCast n 4
    have multiple : (∃ j : Int, (k : ℚ) = 4 * j) ↔ 4 ∣ k := by
      constructor
      · rintro ⟨j, hj⟩
        have : (k : Int) = 4 * j := by exact_mod_cast hj
        omega
      · rintro ⟨j, rfl⟩
        exact ⟨j, by push_cast; rfl⟩
    refine ⟨toGrid (k - 1) 1, ?_, ?_⟩
    · rw [pred, ofRat_of_pos (Nat.cast_pos.mpr (by omega)), Rat.num_natCast, Rat.den_natCast,
        Int.natAbs_natCast, if_neg bounded.not_ge, toRat?_finite]
    · rw [rounded, pred, floor_div, multiple]
      simp only [big, true_and]
      split_ifs with four
      · rw [floor_div]
        omega
      · rw [floor_div]
        omega
  · have exact_pred := onGrid_sub_one h lower (not_lt.mp big)
    refine ⟨q - 1, ?_, by simp [big]⟩
    rcases lower.eq_or_lt with rfl | above
    · simp
    · rw [ofRat_of_onGrid (by linarith) exact_pred (by linarith), toRat?_finite]

end Binary64

end Ostinato
