import Mathlib.Algebra.Order.Field.Rat
import Mathlib.Data.Rat.Cast.Order
import Mathlib.Tactic.Linarith
import Mathlib.Tactic.NormNum
import Ostinato.Number.Amount

/-!
# The values of amounts

A finite number stands for a rational, and its comparisons with whole numbers are those of the
rational. Sorted sequences of numbers are ordered by value; only the two zeros share one.
-/

namespace Ostinato

namespace Binary64

theorem toRat?_eq_some_iff {x : Binary64} {q : ℚ} : x.toRat? = some q ↔ x.place = some (0, q) := by
  cases x with
  | infinity s => cases s <;> simp [toRat?, place]
  | _ => simp [toRat?, place]

theorem place_of_toRat? {x : Binary64} {q : ℚ} (h : x.toRat? = some q) : x.place = some (0, q) :=
  toRat?_eq_some_iff.mp h

theorem atLeastInt_iff {x : Binary64} {q : ℚ} (h : x.toRat? = some q) (n : Int) :
    x.atLeastInt n = true ↔ (n : ℚ) ≤ q := by
  simp [atLeastInt, place_of_toRat? h]

theorem atMostInt_iff {x : Binary64} {q : ℚ} (h : x.toRat? = some q) (n : Int) :
    x.atMostInt n = true ↔ q ≤ (n : ℚ) := by
  simp [atMostInt, place_of_toRat? h]

/-! ### Sorted sequences -/

theorem notAfter_trans (x y z : Binary64) (hxy : x.notAfter y = true) (hyz : y.notAfter z = true) :
    x.notAfter z = true := by
  simp only [notAfter, Bool.or_eq_true, Bool.and_eq_true, decide_eq_true_eq] at *
  rcases hxy with hxy | ⟨exy, hxy⟩
  · rcases hyz with hyz | ⟨eyz, -⟩
    · exact .inl (hxy.trans hyz)
    · exact .inl (eyz ▸ hxy)
  · rcases hyz with hyz | ⟨eyz, hyz⟩
    · exact .inl (exy ▸ hyz)
    · exact .inr ⟨exy.trans eyz, hxy.trans hyz⟩

theorem notAfter_total (x y : Binary64) : (x.notAfter y || y.notAfter x) = true := by
  simp only [notAfter, Bool.or_eq_true, Bool.and_eq_true, decide_eq_true_eq]
  rcases lt_trichotomy x.rank.1 y.rank.1 with h | h | h
  · exact .inl (.inl h)
  · rcases le_total x.rank.2 y.rank.2 with h' | h'
    · exact .inl (.inr ⟨h, h'⟩)
    · exact .inr (.inr ⟨h.symm, h'⟩)
  · exact .inr (.inl h)

theorem rank_eq_of_notAfter {x y : Binary64} (hxy : x.notAfter y = true) (hyx : y.notAfter x = true) :
    x.rank = y.rank := by
  simp only [notAfter, Bool.or_eq_true, Bool.and_eq_true, decide_eq_true_eq] at hxy hyx
  rcases hxy with hxy | ⟨e, hxy⟩
  · rcases hyx with hyx | ⟨e, -⟩ <;> omega
  · rcases hyx with hyx | ⟨-, hyx⟩
    · omega
    · exact Prod.ext e (le_antisymm hxy hyx)

theorem place_eq_none_iff {x : Binary64} : x.place = none ↔ x = nan := by
  cases x with
  | infinity s => cases s <;> simp [place]
  | _ => simp [place]

theorem le_of_notAfter {x y : Binary64} (hx : x ≠ nan) (hy : y ≠ nan) (h : x.notAfter y = true) :
    x.le y = true := by
  obtain ⟨a, ha⟩ := Option.ne_none_iff_exists'.mp (mt place_eq_none_iff.mp hx)
  obtain ⟨b, hb⟩ := Option.ne_none_iff_exists'.mp (mt place_eq_none_iff.mp hy)
  simpa [le, notAfter, rank, ha, hb] using h

theorem eq_of_rank_eq {x y : Binary64} (hx : x ≠ negativeZero) (hy : y ≠ negativeZero)
    (h : x.rank = y.rank) : x = y := by
  cases x with
  | negativeZero => exact absurd rfl hx
  | infinity s => cases y with
    | negativeZero => exact absurd rfl hy
    | infinity t => cases s <;> cases t <;> simp [rank, place] at h ⊢
    | _ => cases s <;> simp [rank, place] at h
  | _ => cases y with
    | negativeZero => exact absurd rfl hy
    | infinity t => cases t <;> simp [rank, place] at h
    | _ => simp [rank, place] at h ⊢ <;> exact h

end Binary64

namespace Amount

/-- The rational that an amount stands for, if it is finite. -/
def value? : Amount → Option ℚ
  | whole n => some n
  | real x => x.toRat?

theorem atLeast_iff {a : Amount} {q : ℚ} (h : a.value? = some q) (n : Int) :
    a.atLeast n = true ↔ (n : ℚ) ≤ q := by
  cases a with
  | whole m =>
    obtain rfl : (m : ℚ) = q := Option.some.inj h
    simp [atLeast]
  | real x => exact Binary64.atLeastInt_iff h n

theorem atMost_iff {a : Amount} {q : ℚ} (h : a.value? = some q) (n : Int) :
    a.atMost n = true ↔ q ≤ (n : ℚ) := by
  cases a with
  | whole m =>
    obtain rfl : (m : ℚ) = q := Option.some.inj h
    simp [atMost]
  | real x => exact Binary64.atMostInt_iff h n

end Amount

end Ostinato
