import Ostinato.Proofs.Number.Range

/-!
# Rounding and order

Rounding passes no number of the format: a result that lies on one side of it is not rounded to the other.
So a difference is above zero only if the exact one is, and nothing taken from an amount leaves the amount.
-/

namespace Ostinato

namespace Rounding

theorem le_toGrid_of_onGrid {n d : Nat} (hn : 0 < n) (hd : 0 < d) {c : ℚ} (hc : OnGrid c)
    (h : c ≤ (n : ℚ) / d) : c ≤ toGrid n d := by
  obtain ⟨m, e, hm, he, rfl⟩ := hc
  by_cases fits : gridExponent n d ≤ e
  · exact le_toGrid hd fits h
  · -- the grid is coarser there, so that a power of two lies between
    have coarse : gridExponent n d = log2Floor n d - 52 := by
      unfold gridExponent at fits ⊢
      omega
    have low := two_zpow_le_toGrid hn hd (k := log2Floor n d) (by omega) (log2Floor_bounds hn hd).1
    calc (m : ℚ) * 2 ^ e ≤ (2 ^ 53 : Nat) * 2 ^ e := by gcongr
      _ = 2 ^ (53 + e) := by rw [two_pow_53, zpow_add₀ two_ne_zero]
      _ ≤ 2 ^ log2Floor n d := zpow_le_zpow_right₀ (by norm_num) (by omega)
      _ ≤ toGrid n d := low

theorem toGrid_le_of_onGrid {n d : Nat} (hn : 0 < n) (hd : 0 < d) {c : ℚ} (hc : OnGrid c)
    (h : (n : ℚ) / d ≤ c) : toGrid n d ≤ c := by
  obtain ⟨m, e, hm, he, rfl⟩ := hc
  refine toGrid_le hd (gridExponent_le hn hd he (h.trans_lt ?_)) h
  rw [zpow_add₀ two_ne_zero, ← two_pow_53]
  exact mul_lt_mul_of_pos_right (Nat.cast_lt.mpr hm) (by positivity)

end Rounding

namespace Binary64

open Rounding

/-! ### The value of a rounded number -/

/-- A rounded number has the sign of the exact one, and its size is that of the exact one on the grid. -/
theorem value_of_ofRat {q r : ℚ} (h : (ofRat q).toRat? = some r) (hq : q ≠ 0) :
    r = if q < 0 then -toGrid q.num.natAbs q.den else toGrid q.num.natAbs q.den := by
  unfold ofRat at h
  simp only [Rat.num_ne_zero.mpr hq, Rat.num_neg, if_false] at h
  by_cases negative : q < 0
  · simp only [negative, if_true] at h ⊢
    split_ifs at h with big vanishes
    · cases h
    · obtain rfl : (0 : ℚ) = r := Option.some.inj h
      rw [vanishes, neg_zero]
    · exact (Option.some.inj h).symm
  · simp only [negative, if_false] at h ⊢
    split_ifs at h with big
    · cases h
    · exact (Option.some.inj h).symm

section Order

variable {q r c : ℚ} (h : (ofRat q).toRat? = some r) (hc : OnGrid |c|)
include h hc

theorem le_of_ofRat (le : c ≤ q) : c ≤ r := by
  rcases eq_or_ne q 0 with rfl | nonzero
  · obtain rfl : (0 : ℚ) = r := Option.some.inj h
    exact le
  · have num_pos : 0 < q.num.natAbs := Int.natAbs_pos.mpr (Rat.num_ne_zero.mpr nonzero)
    have size := natAbs_num_div_den_eq_abs q
    rw [value_of_ofRat h nonzero]
    split_ifs with negative
    · rw [abs_of_neg negative] at size
      rw [abs_of_neg (le.trans_lt negative)] at hc
      exact le_neg_of_le_neg (toGrid_le_of_onGrid num_pos q.den_pos hc (by linarith))
    · rw [abs_of_nonneg (not_lt.mp negative)] at size
      rcases le_or_gt c 0 with below | above
      · exact below.trans (toGrid_nonneg _ _)
      · rw [abs_of_pos above] at hc
        exact le_toGrid_of_onGrid num_pos q.den_pos hc (by linarith)

theorem ofRat_le_of (le : q ≤ c) : r ≤ c := by
  rcases eq_or_ne q 0 with rfl | nonzero
  · obtain rfl : (0 : ℚ) = r := Option.some.inj h
    exact le
  · have num_pos : 0 < q.num.natAbs := Int.natAbs_pos.mpr (Rat.num_ne_zero.mpr nonzero)
    have size := natAbs_num_div_den_eq_abs q
    rw [value_of_ofRat h nonzero]
    split_ifs with negative
    · rw [abs_of_neg negative] at size
      rcases le_or_gt 0 c with above | below
      · exact (neg_nonpos.mpr (toGrid_nonneg _ _)).trans above
      · rw [abs_of_neg below] at hc
        exact neg_le_of_neg_le (le_toGrid_of_onGrid num_pos q.den_pos hc (by linarith))
    · rw [abs_of_nonneg (not_lt.mp negative)] at size
      rw [abs_of_nonneg ((not_lt.mp negative).trans le)] at hc
      exact toGrid_le_of_onGrid num_pos q.den_pos hc (by linarith)

end Order

/-! ### Differences -/

theorem toRat?_neg {x : Binary64} {q : ℚ} (h : x.toRat? = some q) : x.neg.toRat? = some (-q) := by
  cases x with
  | nan => cases h
  | infinity s => cases h
  | negativeZero =>
    obtain rfl : 0 = q := Option.some.inj h
    simp [neg]
  | finite r =>
    obtain rfl : r = q := Option.some.inj h
    dsimp only [neg]
    split_ifs with vanishes
    · simp [vanishes]
    · rfl

theorem place_sub {x y : Binary64} {p q : ℚ} (hx : x.toRat? = some p) (hy : y.toRat? = some q) :
    (x.sub y).place = (ofRat (p - q)).place := by
  rw [sub, place_add hx (toRat?_neg hy), sub_eq_add_neg]

theorem infinity_sub {s : Bool} {y : Binary64} {q : ℚ} (hy : y.toRat? = some q) :
    (infinity s).sub y = infinity s := by
  have value := toRat?_neg hy
  unfold sub
  cases negated : y.neg with
  | nan =>
    rw [negated] at value
    cases value
  | infinity t =>
    rw [negated] at value
    cases value
  | _ => rfl

theorem le_congr {x y z : Binary64} (h : x.place = y.place) : x.le z = y.le z := by
  simp only [le, h]

theorem le_zero_iff {x : Binary64} {q : ℚ} (h : x.toRat? = some q) : x.le (finite 0) = true ↔ q ≤ 0 := by
  have zero : (finite 0).place = some (0, 0) := rfl
  simp [le, place_of_toRat? h, zero]

theorem ofRat_le_zero {q : ℚ} (hq : q ≤ 0) : (ofRat q).le (finite 0) = true := by
  rcases hq.eq_or_lt with rfl | negative
  · rfl
  · have num_neg := Rat.num_neg.mpr negative
    have grid := toGrid_nonneg q.num.natAbs q.den
    unfold ofRat
    simp only [num_neg.ne, num_neg, if_true, if_false, decide_true]
    split_ifs
    · rfl
    · rfl
    · exact (le_zero_iff rfl).mpr (neg_nonpos.mpr grid)

/-- What is spent stays spent. -/
theorem sub_le_zero {x weight : Binary64} {q : ℚ} (spent : x.le (finite 0) = true)
    (hw : weight.toRat? = some q) (hq : 0 ≤ q) : (x.sub weight).le (finite 0) = true := by
  cases hx : x.toRat? with
  | none =>
    cases x with
    | nan => cases spent
    | infinity s =>
      cases s with
      | false => cases spent
      | true => rw [infinity_sub hw]; rfl
    | _ => cases hx
  | some p =>
    have low := (le_zero_iff hx).mp spent
    rw [le_congr (place_sub hx hw)]
    exact ofRat_le_zero (by linarith)

/-! ### Positive amounts -/

/-- A positive number is on the grid and in range, as one is that comes from a rounding. -/
def Representable (x : Binary64) : Prop :=
  ∀ q, x.toRat? = some q → 0 < q → OnGrid q ∧ q < overflowBound

theorem exists_of_toRat?_add {x y : Binary64} {r : ℚ} (h : (x.add y).toRat? = some r) :
    ∃ p q, x.toRat? = some p ∧ y.toRat? = some q := by
  cases x with
  | nan => cases h
  | infinity s =>
    cases y with
    | infinity t =>
      dsimp only [add] at h
      split_ifs at h <;> cases h
    | _ => cases h
  | _ =>
    cases y with
    | nan => cases h
    | infinity t => cases h
    | _ => exact ⟨_, _, rfl, rfl⟩

theorem exists_of_toRat?_mul {x y : Binary64} {r : ℚ} (h : (x.mul y).toRat? = some r) :
    ∃ p q, x.toRat? = some p ∧ y.toRat? = some q := by
  cases x with
  | nan => cases h
  | infinity s =>
    cases y with
    | nan => cases h
    | _ =>
      dsimp only [mul] at h
      split_ifs at h <;> cases h
  | _ =>
    cases y with
    | nan => cases h
    | infinity t =>
      dsimp only [mul] at h
      split_ifs at h <;> cases h
    | _ => exact ⟨_, _, rfl, rfl⟩

theorem representable_add (x y : Binary64) : (x.add y).Representable := by
  intro r value positive
  obtain ⟨p, q, hx, hy⟩ := exists_of_toRat?_add value
  rw [toRat?_add hx hy] at value
  exact onGrid_of_toRat?_ofRat value positive

theorem representable_mul (x y : Binary64) : (x.mul y).Representable := by
  intro r value positive
  obtain ⟨p, q, hx, hy⟩ := exists_of_toRat?_mul value
  rw [toRat?_mul hx hy] at value
  exact onGrid_of_toRat?_ofRat value positive

/-- To take nothing from a positive amount leaves a positive amount. -/
theorem sub_zero_not_le_zero {x weight : Binary64} (left : x.le (finite 0) = false) (hx : x.Representable)
    (hw : weight.toRat? = some 0) : (x.sub weight).le (finite 0) = false := by
  cases value : x.toRat? with
  | none =>
    cases x with
    | nan => rfl
    | infinity s =>
      rw [infinity_sub hw]
      exact left
    | _ => cases value
  | some p =>
    have positive : 0 < p := by
      by_contra low
      rw [(le_zero_iff value).mpr (not_lt.mp low)] at left
      cases left
    obtain ⟨grid, small⟩ := hx p value positive
    rw [le_congr (place_sub value hw), sub_zero, ofRat_of_onGrid positive grid small]
    exact Bool.eq_false_iff.mpr fun spent => absurd ((le_zero_iff rfl).mp spent) positive.not_ge

/-! ### Results that are told by their value -/

theorem toRat?_ofRat_of_onGrid {q : ℚ} {k : Nat} (hk : k < 1024) (hq : OnGrid |q|) (h : |q| ≤ 2 ^ k) :
    (ofRat q).toRat? = some q := by
  obtain ⟨r, hr, -⟩ := toRat?_ofRat_of_abs_le hk h
  rw [hr, le_antisymm (ofRat_le_of hr hq le_rfl) (le_of_ofRat hr hq le_rfl)]

/-- Sixteenths are on the grid. -/
theorem onGrid_sixteenths {j : Int} (h : j.natAbs < 2 ^ 53) : OnGrid |(j : ℚ) / 16| := by
  refine ⟨j.natAbs, -4, h, by norm_num, ?_⟩
  rw [abs_div, ← Int.cast_abs, Int.abs_eq_natAbs, Int.cast_natCast]
  norm_num
  ring

theorem roundHalfUp_eq_ok {x : Binary64} {n : Int} (h : x.roundHalfUp = .ok n) :
    ∃ u v, x.toRat? = some u ∧ (ofRat (u + 1 / 2)).toRat? = some v ∧ n = ⌊v⌋ := by
  have half : (ofRat (1 / 2)).toRat? = some (1 / 2) := by decide +kernel
  obtain ⟨v, hv, hn⟩ : ∃ v, (x.add (ofRat (1 / 2))).toRat? = some v ∧ n = ⌊v⌋ := by
    unfold roundHalfUp floor at h
    cases hs : x.add (ofRat (1 / 2)) with
    | nan =>
      rw [hs] at h
      cases h
    | infinity s =>
      rw [hs] at h
      cases h
    | negativeZero =>
      rw [hs] at h
      exact ⟨0, rfl, (Except.ok.inj h).symm⟩
    | finite q =>
      rw [hs] at h
      exact ⟨q, rfl, (Except.ok.inj h).symm⟩
  obtain ⟨u, -, hu, -⟩ := exists_of_toRat?_add hv
  rw [toRat?_add hu half] at hv
  exact ⟨u, v, hu, hv, hn⟩

theorem quotient_eq_ok {n d : Int} {x : Binary64} (h : quotient n d = .ok x) :
    ∃ p, x.toRat? = some p ∧ (ofRat (n / d)).toRat? = some p := by
  unfold quotient at h
  split_ifs at h
  cases hx : ofRat ((n : ℚ) / d) with
  | nan => exact absurd hx (ofRat_ne_nan _)
  | infinity s =>
    rw [hx] at h
    cases h
  | _ =>
    rw [hx] at h
    obtain rfl := Except.ok.inj h
    exact ⟨_, rfl, rfl⟩

end Binary64

end Ostinato
