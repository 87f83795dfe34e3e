/-! Integers of 64 bits.

Arithmetic is done on `Int`, where it is exact, and brought back into the range
once: `narrow?` refuses a result that does not fit, `clamp` takes the nearest end
of the range. An operation built on `narrow?` therefore never returns a wrapped
number (`toInt_of_narrow?`). -/
namespace Formulary.Word

def least : Int := -9223372036854775808

def greatest : Int := 9223372036854775807

/-- Fits in 64 bits. -/
def Fits (n : Int) : Prop := least ≤ n ∧ n ≤ greatest

instance (n : Int) : Decidable (Fits n) := inferInstanceAs (Decidable (_ ∧ _))

def narrow? (n : Int) : Option Int64 :=
  if Fits n then some (Int64.ofInt n) else none

/-- The nearest integer of the range. -/
def clamp (n : Int) : Int64 :=
  Int64.ofInt (max least (min greatest n))

theorem fits_toInt (n : Int64) : Fits n.toInt :=
  ⟨n.le_toInt, Int.le_of_lt_add_one n.toInt_lt⟩

theorem fits_natCast {n : Nat} : Fits n ↔ (n : Int) ≤ greatest := by
  simp only [Fits, least]
  omega

theorem Fits.between {v w n : Int} (hv : Fits v) (hw : Fits w)
    (h : min v w ≤ n ∧ n ≤ max v w) : Fits n := by
  simp only [Fits] at *
  omega

theorem toInt_ofInt {n : Int} (h : Fits n) : (Int64.ofInt n).toInt = n :=
  Int64.toInt_ofInt_of_le h.1 (Int.lt_add_one_of_le h.2)

theorem Fits.exists_toInt {n : Int} (h : Fits n) : ∃ w : Int64, w.toInt = n :=
  ⟨_, toInt_ofInt h⟩

/-- A narrowed number is the exact one. -/
theorem toInt_of_narrow? {n : Int} {w : Int64} (h : narrow? n = some w) : w.toInt = n := by
  unfold narrow? at h
  split at h
  · next hf => exact Option.some.inj h ▸ toInt_ofInt hf
  · exact nomatch h

theorem narrow?_eq_none_iff {n : Int} : narrow? n = none ↔ ¬ Fits n := by
  unfold narrow?
  split <;> simp_all

@[simp] theorem narrow?_toInt (w : Int64) : narrow? w.toInt = some w := by
  simp [narrow?, fits_toInt]

theorem narrow?_eq_some_iff {n : Int} {w : Int64} : narrow? n = some w ↔ w.toInt = n :=
  ⟨toInt_of_narrow?, fun h => h ▸ narrow?_toInt w⟩

theorem toInt_clamp (n : Int) : (clamp n).toInt = max least (min greatest n) :=
  toInt_ofInt ⟨Int.le_max_left _ _, Int.max_le.2 ⟨by decide, Int.min_le_left _ _⟩⟩

/-- A number that fits already is its own nearest one. -/
theorem clamp_toInt (w : Int64) : clamp w.toInt = w := by
  apply Int64.toInt_inj.1
  rw [toInt_clamp, Int.min_eq_right (fits_toInt w).2, Int.max_eq_right (fits_toInt w).1]

/-- A number next to one of the range is kept, or stays at that end. -/
theorem toInt_clamp_or {v w : Int} (hv : Fits v) (h : (w - v).natAbs ≤ 1) :
    (clamp w).toInt = w ∨ (clamp w).toInt = v := by
  rw [toInt_clamp]
  simp only [Fits] at hv
  omega

end Formulary.Word
