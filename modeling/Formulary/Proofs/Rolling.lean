import Formulary.Proofs.Quotient
import Mathlib.Algebra.Order.BigOperators.Ring.Finset

/-! Rolls of dice.

A die shows a number from 1 to its faces, and dice can show any sequence of such numbers
(`exists_shows_iff`). A roll adds up its dice one by one: as long as the sum fits it is the exact
sum of the dice so far, and at the first one that does not fit the roll ends (`rollFrom_cases`).
All dice together show at least one each and at most all their faces, so a roll with a greatest
sum that fits never fails (`eval_dice`). -/
namespace Formulary

/-! ### Dice -/

/-- The state of a generator after some dice of so many faces. -/
def Generator.after (generator : Generator) (faces state : ℕ) : ℕ → ℕ
  | 0 => state
  | n + 1 => (generator.draw (generator.after faces state n) faces).2

/-- From a state of the generator on, dice of so many faces show these numbers. -/
def Shows (generator : Generator) (faces state : ℕ) (draws : ℕ → ℕ) : Prop :=
  ∀ i, (generator.draw (generator.after faces state i) faces).1 = draws i

/-- What the first `n` dice show in total. -/
def totalShown (draws : ℕ → ℕ) (n : ℕ) : ℕ :=
  ∑ i ∈ Finset.range n, draws i

section
variable {generator : Generator} {faces state : ℕ} {draws : ℕ → ℕ}

theorem Shows.between (h : Shows generator faces state draws) (hfaces : 0 < faces) (i : ℕ) :
    1 ≤ draws i ∧ draws i ≤ faces := by
  rw [← h i]
  exact generator.in_range _ hfaces

/-! ### Sums -/

theorem totalShown_succ (draws : ℕ → ℕ) (n : ℕ) :
    totalShown draws (n + 1) = totalShown draws n + draws n :=
  Finset.sum_range_succ draws n

theorem totalShown_between (h : ∀ i, 1 ≤ draws i ∧ draws i ≤ faces) (n : ℕ) :
    n ≤ totalShown draws n ∧ totalShown draws n ≤ n * faces := by
  have hleast := Finset.card_nsmul_le_sum (Finset.range n) draws 1 fun i _ => (h i).1
  have hgreatest := Finset.sum_le_card_nsmul (Finset.range n) draws faces fun i _ => (h i).2
  rw [Finset.card_range, Nat.nsmul_eq_mul] at hleast hgreatest
  rw [Nat.mul_one] at hleast
  exact ⟨hleast, hgreatest⟩

theorem totalShown_mono (draws : ℕ → ℕ) : Monotone (totalShown draws) :=
  monotone_nat_of_le_succ fun n => totalShown_succ draws n ▸ Nat.le_add_right _ _

/-! ### The running sum -/

/-- One die more, where the sum fits. -/
theorem rollFrom_succ_of_fits (h : Shows generator faces state draws) {n : ℕ}
    (hfits : Word.Fits (totalShown draws (n + 1))) (left : ℕ) :
    rollFrom generator faces (left + 1) (generator.after faces state n) (totalShown draws n) =
      rollFrom generator faces left (generator.after faces state (n + 1))
        (totalShown draws (n + 1)) := by
  rw [rollFrom, h n, ← totalShown_succ]
  exact if_pos hfits.2

/-- One die more, where the sum does not fit. -/
theorem rollFrom_succ_of_not_fits (h : Shows generator faces state draws) {n : ℕ}
    (hfits : ¬ Word.Fits (totalShown draws (n + 1))) (left : ℕ) :
    rollFrom generator faces (left + 1) (generator.after faces state n) (totalShown draws n) =
      (none, generator.after faces state (n + 1)) := by
  rw [rollFrom, h n, ← totalShown_succ]
  exact if_neg (mt Word.fits_natCast.2 hfits)

/-- With `n` dice behind it and `left` before it, a roll comes to the sum of all of them, or it
ends at the first sum that does not fit. -/
theorem rollFrom_cases (h : Shows generator faces state draws) (left : ℕ) {n : ℕ}
    (hfits : Word.Fits (totalShown draws n)) :
    (rollFrom generator faces left (generator.after faces state n) (totalShown draws n) =
        (some (totalShown draws (n + left)), generator.after faces state (n + left)) ∧
      Word.Fits (totalShown draws (n + left))) ∨
    ∃ k < n + left,
      rollFrom generator faces left (generator.after faces state n) (totalShown draws n) =
        (none, generator.after faces state (k + 1)) ∧
      Word.Fits (totalShown draws k) ∧ ¬ Word.Fits (totalShown draws (k + 1)) := by
  induction left generalizing n with
  | zero => exact .inl ⟨rfl, hfits⟩
  | succ left ih =>
    by_cases hnext : Word.Fits (totalShown draws (n + 1))
    · rw [rollFrom_succ_of_fits h hnext, Nat.add_comm left 1, ← Nat.add_assoc n 1 left]
      exact ih hnext
    · exact .inr ⟨n, Nat.lt_add_of_pos_right left.succ_pos,
        rollFrom_succ_of_not_fits h hnext left, hfits, hnext⟩

end

/-! ### Rolls -/

section
variable {count faces : Int64} {generator : Generator} {draws : ℕ → ℕ} {w : World}

/-- A generator whose state counts up, and that shows the numbers of a sequence where the die
has them. -/
def Generator.ofSequence (draws : ℕ → ℕ) : Generator where
  draw state faces := (min (max 1 (draws state)) faces, state + 1)
  in_range _ _ h := ⟨le_min (le_max_left _ _) h, min_le_right _ _⟩

theorem Generator.after_ofSequence (draws : ℕ → ℕ) (faces state n : ℕ) :
    (ofSequence draws).after faces state n = state + n := by
  induction n with
  | zero => rfl
  | succ n ih => rw [after, ih, ← Nat.add_assoc]; rfl

/-- Dice can show whatever is on their faces, in any order. -/
theorem exists_shows_iff (hfaces : 0 < faces.toInt) (state : ℕ) (draws : ℕ → ℕ) :
    (∃ generator : Generator, Shows generator faces.toInt.toNat state draws) ↔
      ∀ i, 1 ≤ draws i ∧ draws i ≤ faces.toInt := by
  constructor
  · intro hshows i
    obtain ⟨generator, h⟩ := hshows
    have hbetween := h.between (by omega) i
    omega
  · intro h
    refine ⟨.ofSequence fun n => draws (n - state), fun i => ?_⟩
    obtain ⟨hone, hle⟩ := h i
    rw [Generator.after_ofSequence]
    show min (max 1 (draws (state + i - state))) faces.toInt.toNat = draws i
    rw [Nat.add_sub_cancel_left]
    omega

/-- All dice of a roll together. -/
theorem Shows.total_between {state : ℕ} (h : Shows generator faces.toInt.toNat state draws)
    (hcount : 0 < count.toInt) (hfaces : 0 < faces.toInt) :
    count.toInt ≤ totalShown draws count.toInt.toNat ∧
      totalShown draws count.toInt.toNat ≤ count.toInt * faces.toInt := by
  obtain ⟨hleast, hgreatest⟩ := totalShown_between (h.between (by omega)) count.toInt.toNat
  have hproduct : ((count.toInt.toNat * faces.toInt.toNat : ℕ) : ℤ) =
      count.toInt * faces.toInt := by
    rw [Nat.cast_mul, Int.toNat_of_nonneg hcount.le, Int.toNat_of_nonneg hfaces.le]
  omega

theorem run_roll_of_not_pos (h : count.toInt ≤ 0 ∨ faces.toInt ≤ 0) (w : World) :
    (roll count faces).run.run w = (.ok 0, w) := by
  have hroll : roll count faces = pure 0 := by
    unfold roll
    exact if_pos (by simpa using h)
  rw [hroll]
  rfl

/-- A roll draws all its dice and is their sum, or it draws up to the first one with which the
sum does not fit. -/
theorem run_roll_cases (hcount : 0 < count.toInt) (hfaces : 0 < faces.toInt)
    (h : Shows w.generator faces.toInt.toNat w.state draws) :
    (∃ n : Int64, n.toInt = totalShown draws count.toInt.toNat ∧
      (roll count faces).run.run w =
        (.ok n, { w with
          state := w.generator.after faces.toInt.toNat w.state count.toInt.toNat })) ∨
    ∃ k < count.toInt.toNat,
      (roll count faces).run.run w =
        (.error (.overflow (.operator .dice)),
          { w with state := w.generator.after faces.toInt.toNat w.state (k + 1) }) ∧
      Word.Fits (totalShown draws k) ∧ ¬ Word.Fits (totalShown draws (k + 1)) := by
  have hpos : ¬ (count.toInt ≤ 0 || faces.toInt ≤ 0) = true := by
    simp only [Bool.or_eq_true, decide_eq_true_eq]
    omega
  have hzero : totalShown draws 0 = 0 := rfl
  have hcases := rollFrom_cases h count.toInt.toNat (hzero ▸ (by decide : Word.Fits (0 : ℕ)))
  rw [Nat.zero_add, hzero, Generator.after] at hcases
  rw [run_roll hpos]
  rcases hcases with ⟨hroll, hfits⟩ | ⟨k, hk, hroll, hfits, hnot⟩
  · refine .inl ⟨Int64.ofNat (totalShown draws count.toInt.toNat), ?_, by rw [hroll]⟩
    rw [← Int64.ofInt_eq_ofNat]
    exact Word.toInt_ofInt hfits
  · exact .inr ⟨k, hk, by rw [hroll], hfits, hnot⟩

end

namespace Expr

variable {left right : Expr} {scope : Scope} {count faces : Int64} {w w₁ w₂ : World}

theorem run_dice (hleft : (left.eval scope).run.run w = (.ok (.integer count), w₁))
    (hright : (right.eval scope).run.run w₁ = (.ok (.integer faces), w₂)) :
    ((binary .dice left right).eval scope).run.run w =
      Run.next (fun n => pure (.integer n)) ((roll count faces).run.run w₂) := by
  rw [← Run.run_bind, bind_pure_comp]
  exact run_binary hleft hright

/-- The dice show a sum that fits, or they end at the first sum that does not. -/
theorem run_dice_cases (hleft : (left.eval scope).run.run w = (.ok (.integer count), w₁))
    (hright : (right.eval scope).run.run w₁ = (.ok (.integer faces), w₂))
    (hcount : 0 < count.toInt) (hfaces : 0 < faces.toInt) {draws : ℕ → ℕ}
    (h : Shows w₂.generator faces.toInt.toNat w₂.state draws) :
    (∃ n : Int64, n.toInt = totalShown draws count.toInt.toNat ∧
      ((binary .dice left right).eval scope).run.run w =
        (.ok (.integer n), { w₂ with
          state := w₂.generator.after faces.toInt.toNat w₂.state count.toInt.toNat })) ∨
    ∃ k < count.toInt.toNat,
      ((binary .dice left right).eval scope).run.run w =
        (.error (.overflow (.operator .dice)),
          { w₂ with state := w₂.generator.after faces.toInt.toNat w₂.state (k + 1) }) ∧
      totalShown draws k ≤ Word.greatest ∧ Word.greatest < totalShown draws (k + 1) := by
  rw [run_dice hleft hright]
  rcases run_roll_cases hcount hfaces h with ⟨n, hn, hroll⟩ | ⟨k, hk, hroll, hfits, hnot⟩
  · exact .inl ⟨n, hn, by rw [hroll]; rfl⟩
  · exact .inr ⟨k, hk, by rw [hroll]; rfl, hfits.2, Int.not_le.1 (mt Word.fits_natCast.2 hnot)⟩

/-- **Dice.** Without dice or without faces a roll is 0 and draws nothing. Otherwise the dice may
show any numbers from 1 to their faces, and whatever they show, a roll that succeeds has drawn
each die once and is their sum. One that fails overflows, at the first die with which the exact
sum does not fit any more. So it succeeds just if the sum of all dice fits, and it always does
where the dice have not enough faces to leave the range. -/
theorem eval_dice (hleft : (left.eval scope).run.run w = (.ok (.integer count), w₁))
    (hright : (right.eval scope).run.run w₁ = (.ok (.integer faces), w₂)) :
    let run := ((binary .dice left right).eval scope).run.run w
    let number := count.toInt.toNat
    let after := w₂.generator.after faces.toInt.toNat w₂.state
    (count.toInt ≤ 0 ∨ faces.toInt ≤ 0 → run = (.ok (.integer 0), w₂)) ∧
      (0 < count.toInt → 0 < faces.toInt → ∀ draws : ℕ → ℕ,
        ((∃ generator : Generator, Shows generator faces.toInt.toNat w₂.state draws) ↔
          ∀ i, 1 ≤ draws i ∧ draws i ≤ faces.toInt) ∧
        (Shows w₂.generator faces.toInt.toNat w₂.state draws →
          (∀ v w', run = (.ok v, w') →
            Gives (.ok v) (totalShown draws number) ∧
            w' = { w₂ with state := after number } ∧
            count.toInt ≤ totalShown draws number ∧
            totalShown draws number ≤ count.toInt * faces.toInt) ∧
          (∀ e w', run = (.error e, w') →
            e = .overflow (.operator .dice) ∧ ∃ k < number,
              w' = { w₂ with state := after (k + 1) } ∧
              totalShown draws k ≤ Word.greatest ∧ Word.greatest < totalShown draws (k + 1)) ∧
          ((∃ v w', run = (.ok v, w')) ↔ totalShown draws number ≤ Word.greatest) ∧
          (count.toInt * faces.toInt ≤ Word.greatest → ∃ v w', run = (.ok v, w')))) := by
  intro run number after
  refine ⟨fun h => ?_, fun hcount hfaces draws => ?_⟩
  · show ((binary .dice left right).eval scope).run.run w = _
    rw [run_dice hleft hright, run_roll_of_not_pos h]
    rfl
  refine ⟨exists_shows_iff hfaces w₂.state draws, fun h => ?_⟩
  obtain ⟨hleast, hgreatest⟩ : count.toInt ≤ totalShown draws number ∧
      totalShown draws number ≤ count.toInt * faces.toInt := h.total_between hcount hfaces
  rcases run_dice_cases hleft hright hcount hfaces h with
    ⟨n, hn, hrun⟩ | ⟨k, hk, hrun, hfits, hover⟩
  case inl =>
    have hsucceeds : ∃ v w', run = (.ok v, w') := ⟨_, _, hrun⟩
    refine ⟨fun v w' hok => ?_, fun e w' herror => ?_, ?_, fun _ => hsucceeds⟩
    · obtain ⟨hv, rfl⟩ := Prod.mk.inj (hrun.symm.trans hok)
      exact ⟨hv ▸ gives_integer.2 hn, rfl, hleast, hgreatest⟩
    · exact nomatch (Prod.mk.inj (hrun.symm.trans herror)).1
    · exact ⟨fun _ => hn ▸ (Word.fits_toInt n).2, fun _ => hsucceeds⟩
  case inr =>
    have hmono : totalShown draws (k + 1) ≤ totalShown draws number := totalShown_mono draws hk
    have hfails (v : Value) (w' : World) : run ≠ (.ok v, w') := fun hok =>
      nomatch (Prod.mk.inj (hrun.symm.trans hok)).1
    refine ⟨fun v w' hok => absurd hok (hfails v w'), fun e w' herror => ?_, ?_, fun hfew => ?_⟩
    · obtain ⟨he, rfl⟩ := Prod.mk.inj (hrun.symm.trans herror)
      exact ⟨(Except.error.inj he).symm, k, hk, rfl, hfits, hover⟩
    · exact ⟨fun ⟨v, w', hok⟩ => absurd hok (hfails v w'), fun hle => by omega⟩
    · omega

/-- Two dice with the greatest number of faces: what they show fits where it is little, and the
second one overflows where it is much. -/
theorem dice_with_greatest_faces :
    let left : Expr := .integer 2
    let right : Expr := .integer 9223372036854775807
    let scope : Scope := .object .nothing
    let showing (word : UInt64) := World.fresh (.ofWords fun _ => word) fun _ _ => .ok .missing
    let run (w : World) := ((binary .dice left right).eval scope).run.run w
    (∀ w, (left.eval scope).run.run w = (.ok (.integer 2), w) ∧
      (right.eval scope).run.run w = (.ok (.integer 9223372036854775807), w)) ∧
      (∃ v w', run (showing 0) = (.ok v, w') ∧ Gives (.ok v) 2 ∧ w'.state = 2) ∧
      ∃ w', run (showing 9223372036854775806) = (.error (.overflow (.operator .dice)), w') ∧
        w'.state = 2 := by
  intro left right scope showing run
  have hleft (w : World) : (left.eval scope).run.run w = (.ok (.integer 2), w) := rfl
  have hright (w : World) : (right.eval scope).run.run w =
      (.ok (.integer 9223372036854775807), w) := rfl
  refine ⟨fun w => ⟨hleft w, hright w⟩, ?fits, ?overflows⟩
  case fits =>
    obtain ⟨-, hdice⟩ := eval_dice (hleft (showing 0)) (hright (showing 0))
    obtain ⟨-, hroll⟩ := hdice (by decide) (by decide) fun _ => 1
    obtain ⟨hok, -, hsucceeds, -⟩ := hroll fun _ => rfl
    obtain ⟨v, w', hrun⟩ := hsucceeds.2 (by decide)
    obtain ⟨hsum, rfl, -⟩ := hok v w' hrun
    exact ⟨v, _, hrun, hsum, rfl⟩
  case overflows =>
    let w := showing 9223372036854775806
    obtain ⟨-, hdice⟩ := eval_dice (hleft w) (hright w)
    obtain ⟨-, hroll⟩ := hdice (by decide) (by decide) fun _ => 9223372036854775807
    obtain ⟨-, herror, hsucceeds, -⟩ := hroll fun _ => rfl
    rcases hrun : run w with ⟨e | v, w'⟩
    · obtain ⟨rfl, k, hk, rfl, hfits, hover⟩ := herror e w' hrun
      have hk : k < 2 := hk
      obtain rfl | rfl : k = 0 ∨ k = 1 := by omega
      · exact absurd hover (by decide)
      · exact ⟨_, rfl, rfl⟩
    · exact absurd (hsucceeds.1 ⟨v, w', hrun⟩) (by decide)

end Expr

end Formulary
