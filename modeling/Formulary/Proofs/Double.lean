import Formulary.Document
import Formulary.Proofs.WholePart
import Mathlib.Algebra.Order.Field.Power
import Mathlib.Tactic.NormNum
import Mathlib.Tactic.Ring
import Mathlib.Tactic.Positivity
import Mathlib.Tactic.FieldSimp

/-! Doubles and the numbers they write.

A finite double is a sign, a fraction of 52 bits and a power of two (`doubleValue`). Its whole
part comes from shifting the significand: `truncateDouble_eq`. -/
namespace Formulary

/-! ### Doubles -/

/-- A double without its sign: the fraction of a power of two, and one more unless the
exponent is the least. -/
def doubleMagnitude (exponent fraction : ℕ) : ℚ :=
  if exponent = 0 then fraction / 2 ^ 52 * 2 ^ (-1022 : ℤ)
  else (1 + fraction / 2 ^ 52) * 2 ^ ((exponent : ℤ) - 1023)

/-- The number that a finite double is: its bits are the sign, the exponent and the fraction. -/
def doubleValue (bits : UInt64) : ℚ :=
  let n := bits.toNat
  let magnitude := doubleMagnitude (n / 2 ^ 52 % 2 ^ 11) (n % 2 ^ 52)
  if n < 2 ^ 63 then magnitude else -magnitude

/-- The whole part of a double without its sign. -/
def wholeMagnitude (exponent fraction : ℕ) : ℕ :=
  if exponent = 0 then 0
  else if 1075 ≤ exponent then (2 ^ 52 + fraction) * 2 ^ (exponent - 1075)
  else (2 ^ 52 + fraction) / 2 ^ (1075 - exponent)

theorem doubleMagnitude_nonneg (exponent fraction : ℕ) : 0 ≤ doubleMagnitude exponent fraction := by
  unfold doubleMagnitude
  split <;> positivity

/-- The significand is a whole number of units, a unit being a power of two. -/
theorem doubleMagnitude_eq {exponent : ℕ} (h : exponent ≠ 0) (fraction : ℕ) :
    doubleMagnitude exponent fraction =
      (2 ^ 52 + fraction : ℕ) * 2 ^ ((exponent : ℤ) - 1075) := by
  have hunit : (2 : ℚ) ^ ((exponent : ℤ) - 1023) = 2 ^ 52 * 2 ^ ((exponent : ℤ) - 1075) := by
    rw [← zpow_natCast, ← zpow_add₀ two_ne_zero]
    congr 1
    push_cast
    ring
  rw [doubleMagnitude, if_neg h, hunit]
  push_cast
  field_simp
  norm_num

theorem floor_doubleMagnitude (exponent : ℕ) {fraction : ℕ} (h : fraction < 2 ^ 52) :
    ⌊doubleMagnitude exponent fraction⌋ = wholeMagnitude exponent fraction := by
  by_cases hzero : exponent = 0
  · have hfraction : (fraction : ℚ) < 2 ^ 52 := mod_cast h
    rw [doubleMagnitude, wholeMagnitude, if_pos hzero, if_pos hzero]
    refine Int.floor_eq_zero_iff.2 ⟨by positivity, ?_⟩
    calc (fraction : ℚ) / 2 ^ 52 * 2 ^ (-1022 : ℤ) ≤ fraction / 2 ^ 52 * 1 := by
          gcongr
          exact zpow_le_one_of_nonpos₀ one_le_two (by decide)
      _ < 1 := by
          rw [mul_one, div_lt_one (by positivity)]
          exact hfraction
  · rw [doubleMagnitude_eq hzero, wholeMagnitude, if_neg hzero]
    split
    · next hle =>
      have hshift : (exponent : ℤ) - 1075 = (exponent - 1075 : ℕ) := by omega
      rw [hshift, zpow_natCast]
      exact mod_cast Int.floor_natCast (R := ℚ) _
    · next hlt =>
      have hshift : (exponent : ℤ) - 1075 = -(1075 - exponent : ℕ) := by omega
      rw [hshift, zpow_neg, zpow_natCast, ← div_eq_mul_inv]
      exact mod_cast Rat.floor_natCast_div_natCast (2 ^ 52 + fraction) (2 ^ (1075 - exponent))

theorem truncateDouble_eq_wholeMagnitude (bits : UInt64) :
    truncateDouble bits =
      let n := bits.toNat
      let magnitude : ℤ := wholeMagnitude (n / 2 ^ 52 % 2 ^ 11) (n % 2 ^ 52)
      if n < 2 ^ 63 then magnitude else -magnitude := by
  have hsign : bits.toNat / 2 ^ 63 = 0 ↔ bits.toNat < 2 ^ 63 := by omega
  simp only [truncateDouble, wholeMagnitude, Nat.shiftRight_eq_div_pow, Nat.shiftLeft_eq, one_mul,
    hsign]

/-- **A double is truncated toward zero.** -/
theorem truncateDouble_eq (bits : UInt64) : truncateDouble bits = wholePart (doubleValue bits) := by
  have hfloor := floor_doubleMagnitude (bits.toNat / 2 ^ 52 % 2 ^ 11)
    (Nat.mod_lt bits.toNat (Nat.two_pow_pos 52))
  have hnonneg := doubleMagnitude_nonneg (bits.toNat / 2 ^ 52 % 2 ^ 11) (bits.toNat % 2 ^ 52)
  rw [truncateDouble_eq_wholeMagnitude, doubleValue]
  simp only [← hfloor]
  split
  · exact (wholePart_of_nonneg hnonneg).symm
  · exact (wholePart_neg hnonneg).symm

end Formulary
