import Mathlib.Algebra.Order.Field.Power
import Mathlib.Algebra.Order.Field.Rat
import Mathlib.Data.Rat.Cast.Order
import Mathlib.Tactic.FieldSimp
import Mathlib.Tactic.Linarith
import Mathlib.Tactic.NormNum
import Mathlib.Tactic.Positivity
import Mathlib.Tactic.Ring
import Ostinato.Number.Binary64

/-!
# Rounding and the grid of binary64

The positive numbers of the format form a grid. Rounding leads onto it, leaves its members as they are
and keeps the order to them.
-/

namespace Ostinato.Rounding

/-! ### The nearest whole number -/

theorem le_nearestEven {m n d : Nat} (hd : 0 < d) (h : m * d ≤ n) : m ≤ nearestEven n d := by
  have low : m ≤ n / d := (Nat.le_div_iff_mul_le hd).mpr h
  unfold nearestEven
  dsimp only
  split_ifs <;> omega

theorem nearestEven_le {m n d : Nat} (hd : 0 < d) (h : n ≤ m * d) : nearestEven n d ≤ m := by
  rcases Nat.eq_or_lt_of_le h with rfl | h
  · exact (nearestEven_of_dvd m d hd).le
  · have low : n / d < m := (Nat.div_lt_iff_lt_mul hd).mpr h
    unfold nearestEven
    dsimp only
    split_ifs <;> omega

/-- The number before a multiple is rounded to the multiple, unless it lies half-way to an even one. -/
theorem nearestEven_pred {k d : Nat} (hk : 0 < k) (hd : 2 ≤ d) :
    nearestEven (k * d - 1) d = if d = 2 ∧ k % 2 = 1 then k - 1 else k := by
  obtain ⟨j, rfl⟩ : ∃ j, k = j + 1 := ⟨k - 1, by omega⟩
  have split : (j + 1) * d - 1 = (d - 1) + d * j := by
    rw [Nat.succ_mul, Nat.mul_comm j d]
    omega
  have quotient : ((j + 1) * d - 1) / d = j := by
    rw [split, Nat.add_mul_div_left _ _ (by omega), Nat.div_eq_of_lt (by omega), Nat.zero_add]
  have remainder : ((j + 1) * d - 1) % d = d - 1 := by
    rw [split, Nat.add_mul_mod_self_left, Nat.mod_eq_of_lt (by omega)]
  unfold nearestEven
  dsimp only
  rw [quotient, remainder]
  split_ifs <;> omega

/-! ### Powers of two -/

theorem two_zpow_mul (e : Int) : (2 : ℚ) ^ e * 2 ^ (-e).toNat = 2 ^ e.toNat := by
  rw [← zpow_natCast, ← zpow_natCast, ← zpow_add₀ two_ne_zero]
  congr 1
  omega

theorem twoPowLe_iff {k : Int} {n d : Nat} (hd : 0 < d) :
    twoPowLe k n d = true ↔ (2 : ℚ) ^ k ≤ (n : ℚ) / d := by
  have hd' : (0 : ℚ) < d := Nat.cast_pos.mpr hd
  rw [le_div_iff₀ hd', twoPowLe]
  split
  · rename_i hk
    obtain ⟨m, rfl⟩ := Int.eq_ofNat_of_zero_le hk
    rw [decide_eq_true_eq, Int.toNat_natCast, Nat.pow_eq, zpow_natCast, mul_comm,
      ← Nat.cast_le (α := ℚ)]
    push_cast
    rfl
  · rename_i hk
    obtain ⟨m, rfl⟩ : ∃ m : Nat, k = -m := ⟨(-k).toNat, by omega⟩
    rw [decide_eq_true_eq, neg_neg, Int.toNat_natCast, Nat.pow_eq, zpow_neg, zpow_natCast,
      inv_mul_le_iff₀ (by positivity), mul_comm, ← Nat.cast_le (α := ℚ)]
    push_cast
    rw [mul_comm]

theorem log2Floor_bounds {n d : Nat} (hn : 0 < n) (hd : 0 < d) :
    (2 : ℚ) ^ log2Floor n d ≤ (n : ℚ) / d ∧ (n : ℚ) / d < 2 ^ (log2Floor n d + 1) := by
  have hd' : (0 : ℚ) < d := Nat.cast_pos.mpr hd
  have n_low : (2 : ℚ) ^ n.log2 ≤ n := by exact_mod_cast Nat.log2_self_le hn.ne'
  have n_high : (n : ℚ) < 2 ^ (n.log2 + 1) := by exact_mod_cast Nat.lt_log2_self
  have d_low : (2 : ℚ) ^ d.log2 ≤ d := by exact_mod_cast Nat.log2_self_le hd.ne'
  have d_high : (d : ℚ) < 2 ^ (d.log2 + 1) := by exact_mod_cast Nat.lt_log2_self
  have high : (n : ℚ) / d < 2 ^ ((n.log2 : Int) - d.log2 + 1) := by
    have power : (2 : ℚ) ^ ((n.log2 : Int) - d.log2 + 1) * 2 ^ d.log2 = 2 ^ (n.log2 + 1) := by
      rw [← zpow_natCast, ← zpow_natCast, ← zpow_add₀ two_ne_zero]
      congr 1
      omega
    rw [div_lt_iff₀ hd']
    calc (n : ℚ) < 2 ^ ((n.log2 : Int) - d.log2 + 1) * 2 ^ d.log2 := power ▸ n_high
      _ ≤ 2 ^ ((n.log2 : Int) - d.log2 + 1) * d := by gcongr
  have low : (2 : ℚ) ^ ((n.log2 : Int) - d.log2 - 1) ≤ (n : ℚ) / d := by
    have power : (2 : ℚ) ^ ((n.log2 : Int) - d.log2 - 1) * 2 ^ (d.log2 + 1) = 2 ^ n.log2 := by
      rw [← zpow_natCast, ← zpow_natCast, ← zpow_add₀ two_ne_zero]
      congr 1
      omega
    rw [le_div_iff₀ hd']
    calc (2 : ℚ) ^ ((n.log2 : Int) - d.log2 - 1) * d
        ≤ 2 ^ ((n.log2 : Int) - d.log2 - 1) * 2 ^ (d.log2 + 1) := by gcongr
      _ ≤ n := power ▸ n_low
  unfold log2Floor
  dsimp only
  split
  · rename_i h
    exact ⟨(twoPowLe_iff hd).mp h, high⟩
  · rename_i h
    refine ⟨low, ?_⟩
    rw [sub_add_cancel]
    exact not_le.mp (mt (twoPowLe_iff hd).mpr h)

/-! ### The grid -/

/-- Whether a rational is a finite number of the format, its range apart, and not below zero. -/
def OnGrid (q : ℚ) : Prop := ∃ (m : Nat) (e : Int), m < 2 ^ 53 ∧ -1074 ≤ e ∧ q = m * 2 ^ e

theorem gridExponent_le {n d : Nat} (hn : 0 < n) (hd : 0 < d) {e : Int} (he : -1074 ≤ e)
    (h : (n : ℚ) / d < 2 ^ (53 + e)) : gridExponent n d ≤ e := by
  have below := (log2Floor_bounds hn hd).1.trans_lt h
  have := (zpow_lt_zpow_iff_right₀ (a := (2 : ℚ)) (by norm_num)).mp below
  unfold gridExponent
  omega

theorem lt_two_zpow_gridExponent {n d : Nat} (hn : 0 < n) (hd : 0 < d) :
    (n : ℚ) / d < 2 ^ (53 + gridExponent n d) := by
  refine (log2Floor_bounds hn hd).2.trans_le (zpow_le_zpow_right₀ (by norm_num) ?_)
  unfold gridExponent
  omega

/-- The rounded number is a multiple of the power of two that the grid has there. -/
theorem toGrid_eq (n d : Nat) :
    toGrid n d = nearestEven (n * 2 ^ (-gridExponent n d).toNat) (d * 2 ^ (gridExponent n d).toNat)
      * 2 ^ gridExponent n d := by
  unfold toGrid
  dsimp only
  split
  · rename_i he
    obtain ⟨m, hm⟩ := Int.eq_ofNat_of_zero_le he
    rw [hm, show (-(m : Int)).toNat = 0 by omega, Int.toNat_natCast, Nat.pow_eq, pow_zero, mul_one,
      zpow_natCast]
    push_cast
    rfl
  · rename_i he
    obtain ⟨m, hm⟩ : ∃ m : Nat, gridExponent n d = -m := ⟨(-gridExponent n d).toNat, by omega⟩
    rw [hm, neg_neg, Int.toNat_natCast, Nat.pow_eq, show (-(m : Int)).toNat = 0 by omega, pow_zero,
      mul_one, Rat.mkRat_eq_div, zpow_neg, zpow_natCast, div_eq_mul_inv]
    push_cast
    rfl

theorem toGrid_nonneg (n d : Nat) : 0 ≤ toGrid n d := by
  rw [toGrid_eq]
  positivity

theorem coarser_eq (m : Nat) {g e : Int} (h : g ≤ e) :
    (m : ℚ) * 2 ^ e = (m * 2 ^ (e - g).toNat : Nat) * 2 ^ g := by
  push_cast
  rw [← zpow_natCast, mul_assoc, ← zpow_add₀ two_ne_zero]
  congr 2
  omega

section Bounds

variable {n d : Nat} (hd : 0 < d)
include hd

theorem le_toGrid {m : Nat} {e : Int} (he : gridExponent n d ≤ e) (h : (m : ℚ) * 2 ^ e ≤ (n : ℚ) / d) :
    (m : ℚ) * 2 ^ e ≤ toGrid n d := by
  have hd' : (0 : ℚ) < d := Nat.cast_pos.mpr hd
  set g := gridExponent n d
  rw [coarser_eq m he, le_div_iff₀ hd'] at h
  rw [coarser_eq m he, toGrid_eq]
  refine mul_le_mul_of_nonneg_right (Nat.cast_le.mpr (le_nearestEven (by positivity) ?_)) (by positivity)
  rw [← Nat.cast_le (α := ℚ)]
  calc ((m * 2 ^ (e - g).toNat * (d * 2 ^ g.toNat) : Nat) : ℚ)
      = (m * 2 ^ (e - g).toNat : Nat) * (2 ^ g * 2 ^ (-g).toNat) * d := by
        rw [two_zpow_mul]
        push_cast
        ring
    _ = (m * 2 ^ (e - g).toNat : Nat) * 2 ^ g * d * 2 ^ (-g).toNat := by ring
    _ ≤ (n : ℚ) * 2 ^ (-g).toNat := by gcongr
    _ = (n * 2 ^ (-g).toNat : Nat) := by push_cast; rfl

theorem toGrid_le {m : Nat} {e : Int} (he : gridExponent n d ≤ e) (h : (n : ℚ) / d ≤ (m : ℚ) * 2 ^ e) :
    toGrid n d ≤ (m : ℚ) * 2 ^ e := by
  have hd' : (0 : ℚ) < d := Nat.cast_pos.mpr hd
  set g := gridExponent n d
  rw [coarser_eq m he, div_le_iff₀ hd'] at h
  rw [coarser_eq m he, toGrid_eq]
  refine mul_le_mul_of_nonneg_right (Nat.cast_le.mpr (nearestEven_le (by positivity) ?_)) (by positivity)
  rw [← Nat.cast_le (α := ℚ)]
  calc ((n * 2 ^ (-g).toNat : Nat) : ℚ)
      = (n : ℚ) * 2 ^ (-g).toNat := by push_cast; rfl
    _ ≤ (m * 2 ^ (e - g).toNat : Nat) * 2 ^ g * d * 2 ^ (-g).toNat := by gcongr
    _ = (m * 2 ^ (e - g).toNat : Nat) * (2 ^ g * 2 ^ (-g).toNat) * d := by ring
    _ = (m * 2 ^ (e - g).toNat * (d * 2 ^ g.toNat) : Nat) := by
        rw [two_zpow_mul]
        push_cast
        ring

end Bounds

theorem two_pow_53 : ((2 ^ 53 : Nat) : ℚ) = 2 ^ (53 : Int) := by norm_num

theorem toGrid_of_onGrid {n d : Nat} (hn : 0 < n) (hd : 0 < d) (h : OnGrid ((n : ℚ) / d)) :
    toGrid n d = (n : ℚ) / d := by
  obtain ⟨m, e, hm, he, eq⟩ := h
  have above : (n : ℚ) / d < 2 ^ (53 + e) := by
    rw [eq, zpow_add₀ two_ne_zero, ← two_pow_53]
    exact mul_lt_mul_of_pos_right (Nat.cast_lt.mpr hm) (by positivity)
  have fits := gridExponent_le hn hd he above
  rw [eq]
  exact le_antisymm (toGrid_le hd fits eq.le) (le_toGrid hd fits eq.ge)

theorem onGrid_toGrid {n d : Nat} (hn : 0 < n) (hd : 0 < d) : OnGrid (toGrid n d) := by
  set g := gridExponent n d with hg
  have low : -1074 ≤ g := le_max_right _ _
  have bound : nearestEven (n * 2 ^ (-g).toNat) (d * 2 ^ g.toNat) ≤ 2 ^ 53 := by
    have below := (lt_two_zpow_gridExponent hn hd).le
    rw [zpow_add₀ two_ne_zero, ← two_pow_53] at below
    replace below := toGrid_le hd le_rfl below
    rw [toGrid_eq] at below
    exact Nat.cast_le.mp (le_of_mul_le_mul_right below (by positivity))
  rcases Nat.eq_or_lt_of_le bound with full | less
  · refine ⟨2 ^ 52, g + 1, by norm_num, by omega, ?_⟩
    rw [toGrid_eq, ← hg, full, zpow_add₀ two_ne_zero]
    push_cast
    ring
  · exact ⟨_, g, less, low, toGrid_eq n d⟩

theorem two_zpow_le_toGrid {n d : Nat} (hn : 0 < n) (hd : 0 < d) {k : Int} (hk : -1074 ≤ k)
    (h : (2 : ℚ) ^ k ≤ (n : ℚ) / d) : (2 : ℚ) ^ k ≤ toGrid n d := by
  obtain ⟨low, high⟩ := log2Floor_bounds hn hd
  have below := (zpow_lt_zpow_iff_right₀ (a := (2 : ℚ)) (by norm_num)).mp (h.trans_lt high)
  have fits : gridExponent n d ≤ log2Floor n d := by
    unfold gridExponent
    omega
  calc (2 : ℚ) ^ k ≤ 2 ^ log2Floor n d := zpow_le_zpow_right₀ (by norm_num) (by omega)
    _ = (1 : Nat) * 2 ^ log2Floor n d := by simp
    _ ≤ toGrid n d := le_toGrid hd fits (by simpa using low)

end Ostinato.Rounding
