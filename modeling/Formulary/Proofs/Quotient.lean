import Formulary.Evaluation
import Formulary.Proofs.Outcome
import Formulary.Proofs.WholePart

/-! Quotients and remainders.

A division by anything but 0 has a quotient, the whole part of the exact one, and a remainder,
which is smaller than the divisor and has the sign of the dividend. The quotient of the least
integer by -1 is the only one that does not fit (`fits_tdiv_iff`). Every remainder fits, but the
two are computed together: `eval_division` says that the remainder is refused exactly where the
quotient is. -/
namespace Formulary

/-- The outcome is the integer `n`. -/
def Gives (outcome : Except EvalError Value) (n : ℤ) : Prop :=
  ∃ m : Int64, outcome = .ok (.integer m) ∧ m.toInt = n

@[simp] theorem gives_integer {m : Int64} {n : ℤ} : Gives (.ok (.integer m)) n ↔ m.toInt = n :=
  ⟨fun ⟨_, h, hn⟩ => Value.integer.inj (Except.ok.inj h) ▸ hn, fun hn => ⟨m, rfl, hn⟩⟩

@[simp] theorem not_gives_error {e : EvalError} {n : ℤ} : ¬ Gives (.error e) n :=
  fun ⟨_, h, _⟩ => nomatch h

/-! ### Operands -/

section
variable {op : BinaryOp} {left right : Expr} {scope : Scope} {a b : Value} {w w₁ w₂ : World}

/-- Both operands run, the left one first. -/
theorem Expr.run_binary (hleft : (left.eval scope).run.run w = (.ok a, w₁))
    (hright : (right.eval scope).run.run w₁ = (.ok b, w₂)) :
    ((binary op left right).eval scope).run.run w = (op.apply a b).run.run w₂ := by
  have heval : (binary op left right).eval scope = (do
      let a ← left.eval scope
      let b ← right.eval scope
      op.apply a b) := rfl
  rw [heval, Run.run_bind, hleft]
  show (right.eval scope >>= fun b => op.apply a b).run.run w₁ = _
  rw [Run.run_bind, hright]
  rfl

end

/-! ### The range of a division -/

variable {a b : Int64}

theorem toInt_ne_zero (hb : b ≠ 0) : b.toInt ≠ 0 :=
  fun h => hb (Int64.toInt_inj.1 h)

/-- A divisor beyond -1 and 1 at least halves the dividend. -/
theorem natAbs_tdiv_le_half (a : ℤ) {b : ℤ} (hb : 2 ≤ b.natAbs) :
    (a.tdiv b).natAbs ≤ a.natAbs / 2 := by
  rw [Int.natAbs_tdiv]
  exact Nat.div_le_div_left hb two_pos

/-- Only a change of sign can leave the range, and only from the least integer. -/
theorem fits_tdiv_iff (a : Int64) (hb : b ≠ 0) :
    Word.Fits (a.toInt.tdiv b.toInt) ↔ ¬ (a.toInt = Word.least ∧ b.toInt = -1) := by
  have hzero := toInt_ne_zero hb
  obtain ⟨hleast, hgreatest⟩ := Word.fits_toInt a
  simp only [Word.Fits, Word.least, Word.greatest] at *
  obtain hone | hminus | hbeyond : b.toInt = 1 ∨ b.toInt = -1 ∨ 2 ≤ b.toInt.natAbs := by omega
  · rw [hone, Int.tdiv_one]
    omega
  · rw [hminus, Int.tdiv_neg, Int.tdiv_one]
    omega
  · have hhalf := natAbs_tdiv_le_half a.toInt hbeyond
    omega

theorem natAbs_tmod_lt (a : ℤ) {b : ℤ} (hb : b ≠ 0) : (a.tmod b).natAbs < b.natAbs := by
  rw [Int.natAbs_tmod]
  exact Nat.mod_lt _ (Int.natAbs_pos.2 hb)

theorem fits_tmod (a : Int64) (hb : b ≠ 0) : Word.Fits (a.toInt.tmod b.toInt) := by
  have hlt := natAbs_tmod_lt a.toInt (toInt_ne_zero hb)
  have hb := Word.fits_toInt b
  simp only [Word.Fits, Word.least, Word.greatest] at *
  omega

theorem tmod_eq_zero_or_sign (a b : ℤ) : a.tmod b = 0 ∨ (a.tmod b).sign = a.sign := by
  rcases Int.lt_trichotomy a 0 with ha | rfl | ha
  · have hneg : a.tmod b ≤ 0 := by
      have := Int.tmod_nonneg b (a := -a) (by omega)
      rw [Int.neg_tmod] at this
      omega
    rcases hneg.eq_or_lt with h | h
    · exact .inl h
    · exact .inr ((Int.sign_eq_neg_one_of_neg h).trans (Int.sign_eq_neg_one_of_neg ha).symm)
  · exact .inl (Int.zero_tmod b)
  · rcases (Int.tmod_nonneg b ha.le).eq_or_lt with h | h
    · exact .inl h.symm
    · exact .inr ((Int.sign_eq_one_of_pos h).trans (Int.sign_eq_one_of_pos ha).symm)

/-! ### Divisions that run -/

namespace BinaryOp

theorem operands_integer (op : BinaryOp) (a b : Int64) :
    op.operands (.integer a) (.integer b) = pure (a, b) :=
  rfl

/-- What a division of integers comes to, for its quotient or its remainder. -/
theorem division_cases (a b : Int64) :
    (b = 0 ∧ ∀ op, division op (.integer a) (.integer b) = throw .divisionByZero) ∨
    (b ≠ 0 ∧ ¬ Word.Fits (a.toInt.tdiv b.toInt) ∧
      ∀ op, division op (.integer a) (.integer b) = throw (.overflow (.operator op))) ∨
    (b ≠ 0 ∧ ∃ q r : Int64, q.toInt = a.toInt.tdiv b.toInt ∧ r.toInt = a.toInt.tmod b.toInt ∧
      ∀ op, division op (.integer a) (.integer b) = pure (q, r)) := by
  by_cases hb : b = 0
  · exact .inl ⟨hb, fun op => by rw [hb]; rfl⟩
  have hdivision (op : BinaryOp) : op.division (.integer a) (.integer b) = (do
      let quotient ← Run.narrow (.operator op) (a.toInt.tdiv b.toInt)
      let remainder ← Run.narrow (.operator op) (a.toInt.tmod b.toInt)
      pure (quotient, remainder)) := by
    rw [division, operands_integer, pure_bind]
    exact if_neg hb
  refine .inr ?_
  by_cases hfits : Word.Fits (a.toInt.tdiv b.toInt)
  · obtain ⟨q, hq⟩ := hfits.exists_toInt
    obtain ⟨r, hr⟩ := (fits_tmod a hb).exists_toInt
    refine .inr ⟨hb, q, r, hq, hr, fun op => ?_⟩
    rw [hdivision, ← hq, ← hr, Run.narrow_toInt, Run.narrow_toInt]
    rfl
  · refine .inl ⟨hb, hfits, fun op => ?_⟩
    rw [hdivision, Run.narrow_of_not_fits _ hfits]
    rfl

end BinaryOp

/-! ### Quotient and remainder -/

namespace Expr

variable {left right : Expr} {scope : Scope} {w w₁ w₂ : World}

/-- **Quotient and remainder.** A division by 0 is refused. By any other divisor the quotient is
the whole part of the exact one, and it overflows exactly where it does not fit. The remainder
then is smaller than the divisor and is 0 or has the sign of the dividend, so it always fits; it
is refused for the least integer and -1 alone, where it would be 0. -/
theorem eval_division (hleft : (left.eval scope).run.run w = (.ok (.integer a), w₁))
    (hright : (right.eval scope).run.run w₁ = (.ok (.integer b), w₂)) :
    let quotient := (((binary .divide left right).eval scope).run.run w).1
    let remainder := (((binary .modulo left right).eval scope).run.run w).1
    let q := wholePart ((a.toInt : ℚ) / b.toInt)
    let r := a.toInt - q * b.toInt
    (quotient = .error .divisionByZero ↔ b = 0) ∧
      (remainder = .error .divisionByZero ↔ b = 0) ∧
      (b ≠ 0 →
        (Gives quotient q ↔ Word.Fits q) ∧
        (quotient = .error (.overflow (.operator .divide)) ↔ ¬ Word.Fits q) ∧
        r.natAbs < b.toInt.natAbs ∧ (r = 0 ∨ r.sign = a.toInt.sign) ∧ Word.Fits r ∧
        (Gives remainder r ↔ ¬ (a.toInt = Word.least ∧ b.toInt = -1)) ∧
        (remainder = .error (.overflow (.operator .modulo)) ↔
          a.toInt = Word.least ∧ b.toInt = -1)) := by
  intro quotient remainder q r
  have hquotient : quotient = ((BinaryOp.divide.division (.integer a) (.integer b) >>= fun x =>
      pure (Value.integer x.1)).run.run w₂).1 := congrArg Prod.fst (run_binary hleft hright)
  have hremainder : remainder = ((BinaryOp.modulo.division (.integer a) (.integer b) >>= fun x =>
      pure (Value.integer x.2)).run.run w₂).1 := congrArg Prod.fst (run_binary hleft hright)
  have hq : q = a.toInt.tdiv b.toInt := wholePart_div _ _
  have hr : r = a.toInt.tmod b.toInt := by
    rw [Int.tmod_def, ← hq, mul_comm]
  have hleast (hb : b ≠ 0) : Word.Fits q ↔ ¬ (a.toInt = Word.least ∧ b.toInt = -1) := by
    rw [hq]
    exact fits_tdiv_iff a hb
  have hproper (hb : b ≠ 0) :
      r.natAbs < b.toInt.natAbs ∧ (r = 0 ∨ r.sign = a.toInt.sign) ∧ Word.Fits r := by
    rw [hr]
    exact ⟨natAbs_tmod_lt _ (toInt_ne_zero hb), tmod_eq_zero_or_sign _ _, fits_tmod a hb⟩
  rcases BinaryOp.division_cases a b with
    ⟨hb, hdivision⟩ | ⟨hb, hfits, hdivision⟩ | ⟨hb, q', r', hq', hr', hdivision⟩
  case inl =>
    rw [hdivision] at hquotient hremainder
    exact ⟨⟨fun _ => hb, fun _ => hquotient⟩, ⟨fun _ => hb, fun _ => hremainder⟩,
      fun h => absurd hb h⟩
  case inr.inl =>
    have hquotient : quotient = .error (.overflow (.operator .divide)) := by
      rw [hquotient, hdivision]
      rfl
    have hremainder : remainder = .error (.overflow (.operator .modulo)) := by
      rw [hremainder, hdivision]
      rfl
    rw [← hq] at hfits
    have hcorner := not_not.1 (mt (hleast hb).2 hfits)
    obtain ⟨hsmaller, hsign, hremainderFits⟩ := hproper hb
    rw [hquotient, hremainder]
    exact ⟨by simp [hb], by simp [hb], fun _ => ⟨by simp [hfits], by simp [hfits], hsmaller, hsign,
      hremainderFits, by simp [hcorner], by simp [hcorner]⟩⟩
  case inr.inr =>
    have hquotient : quotient = .ok (.integer q') := by
      rw [hquotient, hdivision]
      rfl
    have hremainder : remainder = .ok (.integer r') := by
      rw [hremainder, hdivision]
      rfl
    have hfits : Word.Fits q := hq ▸ hq' ▸ Word.fits_toInt q'
    have hcorner := (hleast hb).1 hfits
    rw [← hq] at hq'
    rw [← hr] at hr'
    obtain ⟨hsmaller, hsign, hremainderFits⟩ := hproper hb
    rw [hquotient, hremainder]
    exact ⟨by simp [hb], by simp [hb], fun _ => ⟨by simp [hfits, hq'], by simp [hfits], hsmaller,
      hsign, hremainderFits, by simp [hcorner, hr'], by simp [hcorner]⟩⟩

/-- A negative dividend: the quotient goes up to -3 and the remainder is negative. -/
theorem division_of_negative :
    let scope : Scope := .object .nothing
    let w := World.fresh (.ofWords fun _ => 0) fun _ _ => .ok .missing
    let left : Expr := .unary .negate (.integer 7)
    let right : Expr := .integer 2
    (left.eval scope).run.run w = (.ok (.integer (-7)), w) ∧
      (right.eval scope).run.run w = (.ok (.integer 2), w) ∧
      Gives (((binary .divide left right).eval scope).run.run w).1 (-3) ∧
      Gives (((binary .modulo left right).eval scope).run.run w).1 (-1) := by
  intro scope w left right
  have hleft : (left.eval scope).run.run w = (.ok (.integer (-7)), w) := rfl
  have hright : (right.eval scope).run.run w = (.ok (.integer 2), w) := rfl
  have hq : wholePart (((-7 : Int64).toInt : ℚ) / (2 : Int64).toInt) = -3 := by
    rw [wholePart_div]
    decide
  obtain ⟨-, -, hdivision⟩ := eval_division hleft hright
  rw [hq] at hdivision
  obtain ⟨hquotient, -, -, -, -, hremainder, -⟩ := hdivision (by decide)
  exact ⟨hleft, hright, hquotient.2 (by decide), hremainder.2 (by decide)⟩

/-- The remainder of the least integer by -1 is refused, although it is 0. -/
theorem least_modulo_negative_one_overflows :
    let scope : Scope := .object .nothing
    let w := World.fresh (.ofWords fun _ => 0) fun _ _ => .ok .missing
    let left : Expr := .binary .subtract (.unary .negate (.integer 9223372036854775807)) (.integer 1)
    let right : Expr := .unary .negate (.integer 1)
    (left.eval scope).run.run w = (.ok (.integer (-9223372036854775808)), w) ∧
      (right.eval scope).run.run w = (.ok (.integer (-1)), w) ∧
      (((binary .modulo left right).eval scope).run.run w).1 =
        .error (.overflow (.operator .modulo)) ∧
      (-9223372036854775808 : ℤ) = 9223372036854775808 * -1 + 0 ∧ Word.Fits 0 :=
  ⟨rfl, rfl, rfl, rfl, by decide⟩

end Expr

end Formulary
