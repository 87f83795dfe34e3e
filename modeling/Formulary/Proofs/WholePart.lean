import Mathlib.Data.Rat.Floor
import Mathlib.Tactic.NormNum

/-! Whole parts of rational numbers.

The whole part of a number is what stands before the point, so it is the nearest integer
toward zero. Of a fraction it is the quotient of integers that goes toward zero
(`wholePart_div`). -/
namespace Formulary

/-- A number without what stands behind the point. -/
def wholePart (q : ℚ) : ℤ :=
  if 0 ≤ q then ⌊q⌋ else ⌈q⌉

theorem wholePart_of_nonneg {q : ℚ} (h : 0 ≤ q) : wholePart q = ⌊q⌋ :=
  if_pos h

theorem wholePart_neg {q : ℚ} (h : 0 ≤ q) : wholePart (-q) = -⌊q⌋ := by
  unfold wholePart
  split
  · next hneg =>
    obtain rfl : q = 0 := le_antisymm (neg_nonneg.1 hneg) h
    simp
  · exact Int.ceil_neg

theorem wholePart_intCast (n : ℤ) : wholePart n = n := by
  unfold wholePart
  split
  · exact Int.floor_intCast n
  · exact Int.ceil_intCast n

theorem wholePart_mono {p q : ℚ} (h : p ≤ q) : wholePart p ≤ wholePart q := by
  unfold wholePart
  split <;> split
  · exact Int.floor_le_floor h
  · next hp hq => exact absurd (hp.trans h) hq
  · next hp hq =>
    calc ⌈p⌉ ≤ 0 := Int.ceil_le.2 (by simpa using (not_le.1 hp).le)
      _ ≤ ⌊q⌋ := Int.floor_nonneg.2 hq
  · exact Int.ceil_le_ceil h

/-- Nothing stands before the point. -/
theorem wholePart_of_abs_lt_one {q : ℚ} (h : |q| < 1) : wholePart q = 0 := by
  obtain ⟨hneg, hpos⟩ := abs_lt.1 h
  unfold wholePart
  split
  · next hq => exact Int.floor_eq_zero_iff.2 ⟨hq, hpos⟩
  · next hq => exact Int.ceil_eq_zero_iff.2 ⟨hneg, (not_le.1 hq).le⟩

theorem wholePart_natCast_div (m n : ℕ) : wholePart ((m : ℚ) / n) = (m / n : ℕ) := by
  rw [wholePart_of_nonneg (by positivity), Rat.floor_natCast_div_natCast, Int.natCast_div]

theorem wholePart_neg_natCast_div (m n : ℕ) : wholePart (-((m : ℚ) / n)) = -(m / n : ℕ) := by
  rw [wholePart_neg (by positivity), Rat.floor_natCast_div_natCast, Int.natCast_div]

/-- The whole part of a fraction. -/
theorem wholePart_div (a b : ℤ) : wholePart ((a : ℚ) / b) = a.tdiv b := by
  obtain ⟨m, rfl | rfl⟩ := a.eq_nat_or_neg <;> obtain ⟨n, rfl | rfl⟩ := b.eq_nat_or_neg <;>
    push_cast
  · rw [wholePart_natCast_div, Int.ofNat_tdiv]
  · rw [div_neg, wholePart_neg_natCast_div, Int.tdiv_neg, Int.ofNat_tdiv]
  · rw [neg_div, wholePart_neg_natCast_div, Int.neg_tdiv, Int.ofNat_tdiv]
  · rw [neg_div_neg_eq, wholePart_natCast_div, Int.neg_tdiv, Int.tdiv_neg, Int.ofNat_tdiv, neg_neg]

end Formulary
