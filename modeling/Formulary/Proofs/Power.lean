import Formulary.Proofs.Quotient
import Mathlib.Algebra.Order.Field.Power
import Mathlib.Algebra.Ring.Int.Parity
import Mathlib.Data.Int.Order.Units
import Mathlib.Tactic.Linarith

/-! Powers.

A power is computed by squaring, and each product on the way is refused if it does not fit. None
is refused in vain (`powerBySquaring?_eq`): a factor that does not fit is only multiplied further,
and a square that does not fit is used at least once and is beyond both ends of the range, as no
square lies on one (`lt_square`). So `wholePower?` refuses exactly the powers that do not fit.

`eval_power`: for every base and exponent the result is the whole part of the real power, unless
the exponent is beyond what is tried at all. Such an exponent would be too large for any base but
0, 1 and -1, and for these it overflows as well. -/
namespace Formulary

/-! ### Products beyond the range -/

theorem not_fits_mul {n m : ℤ} (hn : ¬ Word.Fits n) (hm : 1 ≤ m) : ¬ Word.Fits (n * m) := by
  simp only [Word.Fits, Word.least, Word.greatest] at *
  rcases le_total 0 n with h | h
  · have := le_mul_of_one_le_right h hm
    omega
  · have := mul_le_of_one_le_right h hm
    omega

/-- Beyond both ends. -/
theorem not_fits_of_natAbs {n : ℤ} (h : 9223372036854775808 < n.natAbs) : ¬ Word.Fits n := by
  simp only [Word.Fits, Word.least, Word.greatest]
  omega

/-- No square is as far from 0 as the least integer. -/
theorem lt_square {b : ℤ} (h : ¬ Word.Fits (b * b)) : 9223372036854775808 < (b * b).natAbs := by
  simp only [Word.Fits, Word.least, Word.greatest] at h
  have hnonneg := mul_self_nonneg b
  rw [Int.natAbs_mul]
  rcases Nat.lt_or_ge b.natAbs 3037000500 with hlt | hge
  · have hle : b.natAbs * b.natAbs ≤ 3037000499 * 3037000499 :=
      Nat.mul_le_mul (by omega) (by omega)
    rw [← Int.natAbs_mul] at hle
    omega
  · have hle : 3037000500 * 3037000500 ≤ b.natAbs * b.natAbs := Nat.mul_le_mul hge hge
    omega

theorem not_fits_pow {b : ℤ} (hb : 2 ≤ b.natAbs) {n : ℕ} (hn : 64 ≤ n) : ¬ Word.Fits (b ^ n) := by
  apply not_fits_of_natAbs
  calc 9223372036854775808 < 2 ^ 64 := by norm_num
    _ ≤ 2 ^ n := Nat.pow_le_pow_right two_pos hn
    _ ≤ b.natAbs ^ n := Nat.pow_le_pow_left hb n
    _ = (b ^ n).natAbs := (Int.natAbs_pow b n).symm

/-! ### Squaring -/

/-- One square: if the rest of the run is exact, so is the run with the square before it. -/
theorem squared_eq {factor base : Int64} {k : ℕ} (hk : 0 < k) (hzero : factor = 0 → base = 0)
    (hrest : ∀ square : Int64, (factor = 0 → square = 0) →
      powerBySquaring? factor square k = Word.narrow? (factor.toInt * square.toInt ^ k)) :
    (do
      let square ← Word.narrow? (base.toInt * base.toInt)
      powerBySquaring? factor square k) =
      Word.narrow? (factor.toInt * (base.toInt * base.toInt) ^ k) := by
  cases hsquare : Word.narrow? (base.toInt * base.toInt) with
  | none =>
    have hnot := Word.narrow?_eq_none_iff.1 hsquare
    have hfactor : factor.toInt ≠ 0 := by
      intro h
      obtain rfl := hzero (Int64.toInt_inj.1 h)
      exact hnot (by decide)
    refine (Word.narrow?_eq_none_iff.2 (not_fits_of_natAbs ?_)).symm
    calc 9223372036854775808 < (base.toInt * base.toInt).natAbs := lt_square hnot
      _ ≤ (base.toInt * base.toInt).natAbs ^ k := Nat.le_self_pow hk.ne' _
      _ ≤ factor.toInt.natAbs * (base.toInt * base.toInt).natAbs ^ k :=
        Nat.le_mul_of_pos_left _ (Int.natAbs_pos.2 hfactor)
      _ = (factor.toInt * (base.toInt * base.toInt) ^ k).natAbs := by
        rw [Int.natAbs_mul factor.toInt, Int.natAbs_pow]
  | some square =>
    have hexact := Word.toInt_of_narrow? hsquare
    have hsquareZero (h : factor = 0) : square = 0 := by
      rw [hzero h] at hexact
      exact Int64.toInt_inj.1 hexact
    rw [← hexact, ← hrest square hsquareZero]
    rfl

/-- No product on the way is refused in vain. A factor of 0 comes only from a base of 0. -/
theorem powerBySquaring?_eq {factor base : Int64} {exponent : ℕ} (hpos : 0 < exponent)
    (hzero : factor = 0 → base = 0) :
    powerBySquaring? factor base exponent =
      Word.narrow? (factor.toInt * base.toInt ^ exponent) := by
  induction exponent using Nat.strongRecOn generalizing factor base with
  | ind exponent ih =>
    rw [powerBySquaring?]
    split
    · next hone =>
      obtain rfl : exponent = 1 := by omega
      rw [pow_one]
    · next hmore =>
      have hhalf : 0 < exponent / 2 := by omega
      have hrest (factor' square : Int64) (h : factor' = 0 → square = 0) :=
        ih (exponent / 2) (by omega) hhalf h
      split
      · next hodd =>
        have hpower : factor.toInt * base.toInt ^ exponent =
            factor.toInt * base.toInt * (base.toInt * base.toInt) ^ (exponent / 2) := by
          conv_lhs => rw [← Nat.div_add_mod exponent 2, hodd, pow_succ, pow_mul, sq]
          ring
        rw [hpower]
        cases hproduct : Word.narrow? (factor.toInt * base.toInt) with
        | none =>
          have hnot := Word.narrow?_eq_none_iff.1 hproduct
          have hbase : base.toInt ≠ 0 := by
            intro h
            rw [h, mul_zero] at hnot
            exact hnot (by decide)
          have hsquares : 1 ≤ (base.toInt * base.toInt) ^ (exponent / 2) :=
            Int.add_one_le_iff.2 (pow_pos (mul_self_pos.2 hbase) _)
          exact (Word.narrow?_eq_none_iff.2 (not_fits_mul hnot hsquares)).symm
        | some product =>
          have hexact := Word.toInt_of_narrow? hproduct
          have hproductZero (h : product = 0) : base = 0 := by
            rw [h] at hexact
            rcases mul_eq_zero.1 hexact.symm with h | h
            · exact hzero (Int64.toInt_inj.1 h)
            · exact Int64.toInt_inj.1 h
          rw [← hexact]
          exact squared_eq hhalf hproductZero (hrest product)
      · next heven =>
        have hpower : base.toInt ^ exponent =
            (base.toInt * base.toInt) ^ (exponent / 2) := by
          conv_lhs => rw [← Nat.div_add_mod exponent 2, (by omega : exponent % 2 = 0), add_zero,
            pow_mul, sq]
        rw [hpower]
        exact squared_eq hhalf hzero (hrest factor)

/-- A power is refused just if it does not fit. -/
theorem wholePower?_eq (base : Int64) (exponent : ℕ) :
    wholePower? base exponent = Word.narrow? (base.toInt ^ exponent) := by
  unfold wholePower?
  split
  · next hzero =>
    rw [hzero, pow_zero]
    exact (Word.narrow?_toInt 1).symm
  · next hpos =>
    have hone : (1 : Int64) = 0 → base = 0 := fun h => absurd h (by decide)
    rw [powerBySquaring?_eq (Nat.pos_of_ne_zero hpos) hone]
    exact congrArg Word.narrow? (one_mul _)

/-! ### Whole parts of real powers -/

theorem wholePart_zpow_of_nonneg (b : ℤ) {e : ℤ} (he : 0 ≤ e) :
    wholePart ((b : ℚ) ^ e) = b ^ e.toNat := by
  lift e to ℕ using he
  rw [zpow_natCast, ← Int.cast_pow, wholePart_intCast, Int.toNat_natCast]

theorem wholePart_zpow_of_neg {b e : ℤ} (hb : 2 ≤ b.natAbs) (he : e < 0) :
    wholePart ((b : ℚ) ^ e) = 0 := by
  have habs : (1 : ℚ) < |(b : ℚ)| := by
    rw [← Int.cast_abs, Int.abs_eq_natAbs]
    exact mod_cast hb
  apply wholePart_of_abs_lt_one
  rw [abs_zpow]
  exact zpow_lt_one_of_neg₀ habs he

theorem wholePart_neg_one_zpow (e : ℤ) :
    wholePart (((-1 : ℤ) : ℚ) ^ e) = if e % 2 = 0 then 1 else -1 := by
  rw [Int.cast_neg, Int.cast_one]
  split
  · next heven =>
    rw [Even.neg_one_zpow (Int.even_iff.2 heven)]
    exact wholePart_intCast 1
  · next hodd =>
    rw [Odd.neg_one_zpow (Int.odd_iff.2 (Int.emod_two_ne_zero.1 hodd))]
    exact wholePart_intCast (-1)

/-! ### Powers of integers -/

/-- The power is 0, 1 or -1, but the exponent is beyond those that are tried. -/
def Untried (base exponent : Int64) : Prop :=
  base.toInt.natAbs ≤ 1 ∧ greatestExponent < exponent.toInt

section
variable {base exponent : Int64}

theorem powerOf_of_tried (he : 0 ≤ exponent.toInt) (htried : exponent.toInt ≤ greatestExponent) :
    powerOf base exponent =
      Run.narrow (.operator .power) (wholePart ((base.toInt : ℚ) ^ exponent.toInt)) := by
  unfold powerOf
  rw [if_pos he, if_pos htried, wholePower?_eq, wholePart_zpow_of_nonneg _ he]
  rfl

/-- Beyond the greatest exponent only powers of 0, 1 and -1 fit. -/
theorem powerOf_of_beyond (hbeyond : greatestExponent < exponent.toInt) :
    (¬ Word.Fits (wholePart ((base.toInt : ℚ) ^ exponent.toInt)) ∨ Untried base exponent) ∧
      powerOf base exponent = throw (.overflow (.operator .power)) := by
  have hlarge : 64 ≤ exponent.toInt := by
    unfold greatestExponent at hbeyond
    omega
  have he : 0 ≤ exponent.toInt := by omega
  constructor
  · rcases Nat.lt_or_ge 1 base.toInt.natAbs with hbase | hbase
    · rw [wholePart_zpow_of_nonneg _ he]
      exact .inl (not_fits_pow hbase (by omega))
    · exact .inr ⟨hbase, hbeyond⟩
  · unfold powerOf
    rw [if_pos he, if_neg (not_le.2 hbeyond)]

/-- With a negative exponent the real power is a fraction, but for 1 and -1. -/
theorem powerOf_of_neg (hbase : base ≠ 0) (he : exponent.toInt < 0) :
    ∃ n : Int64, n.toInt = wholePart ((base.toInt : ℚ) ^ exponent.toInt) ∧
      powerOf base exponent = pure n := by
  have hzero := toInt_ne_zero hbase
  have hpower : powerOf base exponent =
      if base.toInt = 1 then pure 1
      else if base.toInt = -1 then pure (if exponent.toInt % 2 = 0 then 1 else -1)
      else pure 0 := by
    unfold powerOf
    rw [if_neg (not_le.2 he), if_neg hzero]
  by_cases hone : base.toInt = 1
  · refine ⟨1, ?_, by rw [hpower, if_pos hone]⟩
    rw [hone, Int.cast_one, one_zpow]
    exact (wholePart_intCast 1).symm
  rw [if_neg hone] at hpower
  by_cases hminus : base.toInt = -1
  · refine ⟨_, ?_, by rw [hpower, if_pos hminus]⟩
    rw [hminus, wholePart_neg_one_zpow]
    split <;> rfl
  · refine ⟨0, ?_, by rw [hpower, if_neg hminus]⟩
    exact (wholePart_zpow_of_neg (by omega) he).symm

/-- What a power comes to. -/
theorem powerOf_cases (base exponent : Int64) :
    let t := wholePart ((base.toInt : ℚ) ^ exponent.toInt)
    ((base = 0 ∧ exponent < 0) ∧ powerOf base exponent = throw .divisionByZero) ∨
    (¬ (base = 0 ∧ exponent < 0) ∧ (¬ Word.Fits t ∨ Untried base exponent) ∧
      powerOf base exponent = throw (.overflow (.operator .power))) ∨
    (¬ (base = 0 ∧ exponent < 0) ∧ ¬ Untried base exponent ∧
      ∃ n : Int64, n.toInt = t ∧ powerOf base exponent = pure n) := by
  intro t
  have hsign : exponent < 0 ↔ exponent.toInt < 0 := Int64.lt_iff_toInt_lt
  rcases lt_or_ge exponent.toInt 0 with he | he
  · have htried : ¬ Untried base exponent := fun h => absurd (h.2.trans he) (by decide)
    by_cases hbase : base = 0
    · refine .inl ⟨⟨hbase, hsign.2 he⟩, ?_⟩
      unfold powerOf
      rw [if_neg (not_le.2 he), hbase]
      rfl
    · exact .inr (.inr ⟨fun h => hbase h.1, htried, powerOf_of_neg hbase he⟩)
  · have hdefined : ¬ (base = 0 ∧ exponent < 0) := fun h => absurd (hsign.1 h.2) (not_lt.2 he)
    rcases lt_or_ge greatestExponent exponent.toInt with hbeyond | htried
    · exact .inr (.inl ⟨hdefined, powerOf_of_beyond hbeyond⟩)
    rw [powerOf_of_tried he htried]
    by_cases hfits : Word.Fits t
    · obtain ⟨n, hn⟩ := hfits.exists_toInt
      refine .inr (.inr ⟨hdefined, fun h => absurd h.2 (not_lt.2 htried), n, hn, ?_⟩)
      show Run.narrow _ t = _
      rw [← hn, Run.narrow_toInt]
    · exact .inr (.inl ⟨hdefined, .inl hfits, Run.narrow_of_not_fits _ hfits⟩)

end

namespace Expr

variable {left right : Expr} {base exponent : Int64} {scope : Scope} {w w₁ w₂ : World}

/-- **Powers are exact, or do not fit.** Only a negative power of 0 is a division by 0. Any other
power is the whole part of the real one (0 to the 0 is 1), and overflows where that does not fit.
The one exception is powers of 0, 1 and -1 to an exponent beyond those that are tried: these
overflow although they fit. -/
theorem eval_power (hleft : (left.eval scope).run.run w = (.ok (.integer base), w₁))
    (hright : (right.eval scope).run.run w₁ = (.ok (.integer exponent), w₂)) :
    let outcome := (((binary .power left right).eval scope).run.run w).1
    let t := wholePart ((base.toInt : ℚ) ^ exponent.toInt)
    (outcome = .error .divisionByZero ↔ base = 0 ∧ exponent < 0) ∧
      (¬ (base = 0 ∧ exponent < 0) →
        (Gives outcome t ↔ Word.Fits t ∧ ¬ Untried base exponent) ∧
        (outcome = .error (.overflow (.operator .power)) ↔
          ¬ Word.Fits t ∨ Untried base exponent)) := by
  intro outcome t
  have hrun : outcome = ((Value.integer <$> powerOf base exponent : Run Value).run.run w₂).1 :=
    congrArg Prod.fst (run_binary hleft hright)
  rcases powerOf_cases base exponent with
    ⟨hundefined, hpower⟩ | ⟨hdefined, hcause, hpower⟩ | ⟨hdefined, htried, n, hn, hpower⟩
  case inl =>
    rw [hpower] at hrun
    exact ⟨⟨fun _ => hundefined, fun _ => hrun⟩, fun h => absurd hundefined h⟩
  case inr.inl =>
    have houtcome : outcome = .error (.overflow (.operator .power)) := by
      rw [hrun, hpower]
      rfl
    rw [houtcome]
    exact ⟨by simp [hdefined], fun _ => ⟨by simpa [imp_iff_not_or] using hcause,
      ⟨fun _ => hcause, fun _ => rfl⟩⟩⟩
  case inr.inr =>
    have houtcome : outcome = .ok (.integer n) := by
      rw [hrun, hpower]
      rfl
    have hn : n.toInt = t := hn
    have hfits : Word.Fits t := hn ▸ Word.fits_toInt n
    rw [houtcome]
    exact ⟨by simp [hdefined], fun _ => ⟨by simp [hfits, htried, hn], by simp [hfits, htried]⟩⟩

/-- The least integer is a power, and the power after it does not fit. -/
theorem power_reaches_least :
    let scope : Scope := .object .nothing
    let w := World.fresh (.ofWords fun _ => 0) fun _ _ => .ok .missing
    let base : Expr := .unary .negate (.integer 2)
    (base.eval scope).run.run w = (.ok (.integer (-2)), w) ∧
      Gives (((binary .power base (.integer 63)).eval scope).run.run w).1 Word.least ∧
      (((binary .power base (.integer 64)).eval scope).run.run w).1 =
        .error (.overflow (.operator .power)) := by
  intro scope w base
  have hbase : (base.eval scope).run.run w = (.ok (.integer (-2)), w) := rfl
  have hexponent (n : Int64) : ((Expr.integer n).eval scope).run.run w = (.ok (.integer n), w) :=
    rfl
  have hleast : wholePart (((-2 : Int64).toInt : ℚ) ^ (63 : Int64).toInt) = Word.least :=
    wholePart_zpow_of_nonneg _ (by decide)
  have hbeyond : wholePart (((-2 : Int64).toInt : ℚ) ^ (64 : Int64).toInt) = 18446744073709551616 :=
    wholePart_zpow_of_nonneg _ (by decide)
  obtain ⟨-, hlast⟩ := eval_power hbase (hexponent 63)
  obtain ⟨-, hnext⟩ := eval_power hbase (hexponent 64)
  rw [hleast] at hlast
  rw [hbeyond] at hnext
  have htried (n : Int64) : ¬ Untried (-2) n := fun h => absurd h.1 (by decide)
  exact ⟨hbase, (hlast (by decide)).1.2 ⟨by decide, htried 63⟩,
    (hnext (by decide)).2.2 (.inl (by decide))⟩

/-- 1 to an exponent beyond those that are tried overflows, although it is 1. -/
theorem power_of_one_overflows :
    let scope : Scope := .object .nothing
    let w := World.fresh (.ofWords fun _ => 0) fun _ _ => .ok .missing
    (((binary .power (.integer 1) (.integer 4294967296)).eval scope).run.run w).1 =
        .error (.overflow (.operator .power)) ∧
      wholePart (((1 : Int64).toInt : ℚ) ^ (4294967296 : Int64).toInt) = 1 ∧ Word.Fits 1 := by
  refine ⟨rfl, ?_, by decide⟩
  rw [wholePart_zpow_of_nonneg _ (by decide)]
  exact one_pow _

end Expr

end Formulary
