import Formulary.Proofs.Quotient
import Mathlib.Algebra.Order.Field.Basic
import Mathlib.Tactic.FieldSimp
import Mathlib.Tactic.GCongr
import Mathlib.Tactic.Linarith

/-! Levels between two points.

The exact level between two points is a weighted average of theirs. It moves from one level to
the other without turning back (`average_mono`, `average_anti`), and truncation keeps that order,
so a level lies between those of the points. It is computed in 64 bits: where all steps fit the
level is exact, and where one does not it is refused (`interpolate?_eq_some_iff`). At the points
themselves nothing is computed, and their own levels are on the line as well
(`toInt_of_interpolate?`). -/
namespace Formulary

/-! ### The line through two points -/

/-- The average of the levels of two points, each weighted by the distance of `x` to the other
point. -/
def average (lower upper : Point) (x : ℤ) : ℚ :=
  (lower.level.toInt * (upper.position.toInt - x) +
      upper.level.toInt * (x - lower.position.toInt) : ℤ) /
    (upper.position.toInt - lower.position.toInt : ℤ)

section
variable {lower upper : Point} {x y : ℤ}

theorem span_pos (hlt : lower.position < upper.position) :
    0 < upper.position.toInt - lower.position.toInt :=
  sub_pos.2 (Int64.lt_iff_toInt_lt.1 hlt)

theorem average_lower (hlt : lower.position < upper.position) :
    average lower upper lower.position.toInt = lower.level.toInt := by
  have hspan : ((upper.position.toInt - lower.position.toInt : ℤ) : ℚ) ≠ 0 :=
    Int.cast_ne_zero.2 (span_pos hlt).ne'
  rw [average, sub_self, mul_zero, add_zero, Int.cast_mul, mul_div_assoc, div_self hspan, mul_one]

theorem average_upper (hlt : lower.position < upper.position) :
    average lower upper upper.position.toInt = upper.level.toInt := by
  have hspan : ((upper.position.toInt - lower.position.toInt : ℤ) : ℚ) ≠ 0 :=
    Int.cast_ne_zero.2 (span_pos hlt).ne'
  rw [average, sub_self, mul_zero, zero_add, Int.cast_mul, mul_div_assoc, div_self hspan, mul_one]

/-- A step to the right takes weight from the lower point and gives it to the upper one. -/
theorem average_sub (lower upper : Point) (x y : ℤ) :
    average lower upper y - average lower upper x =
      ((upper.level.toInt - lower.level.toInt) * (y - x) : ℤ) /
        (upper.position.toInt - lower.position.toInt : ℤ) := by
  rw [average, average, ← sub_div, ← Int.cast_sub]
  congr 2
  ring

theorem average_mono (hlt : lower.position < upper.position) (hlevels : lower.level ≤ upper.level)
    (hxy : x ≤ y) : average lower upper x ≤ average lower upper y := by
  rw [← sub_nonneg, average_sub]
  exact div_nonneg (Int.cast_nonneg (mul_nonneg
    (sub_nonneg.2 (Int64.le_iff_toInt_le.1 hlevels)) (sub_nonneg.2 hxy)))
    (Int.cast_nonneg (span_pos hlt).le)

theorem average_anti (hlt : lower.position < upper.position) (hlevels : upper.level ≤ lower.level)
    (hxy : x ≤ y) : average lower upper y ≤ average lower upper x := by
  rw [← sub_nonpos, average_sub]
  exact div_nonpos_of_nonpos_of_nonneg (Int.cast_nonpos.2 (mul_nonpos_of_nonpos_of_nonneg
    (sub_nonpos.2 (Int64.le_iff_toInt_le.1 hlevels)) (sub_nonneg.2 hxy)))
    (Int.cast_nonneg (span_pos hlt).le)

/-- The whole part of an average is between the levels. -/
theorem wholePart_average_between (hlt : lower.position < upper.position)
    (hlower : lower.position.toInt ≤ x) (hupper : x ≤ upper.position.toInt) :
    min lower.level.toInt upper.level.toInt ≤ wholePart (average lower upper x) ∧
      wholePart (average lower upper x) ≤ max lower.level.toInt upper.level.toInt := by
  have hatLower : wholePart (average lower upper lower.position.toInt) = lower.level.toInt := by
    rw [average_lower hlt, wholePart_intCast]
  have hatUpper : wholePart (average lower upper upper.position.toInt) = upper.level.toInt := by
    rw [average_upper hlt, wholePart_intCast]
  rcases le_total lower.level.toInt upper.level.toInt with h | h
  · have hlevels := Int64.le_iff_toInt_le.2 h
    rw [min_eq_left h, max_eq_right h]
    exact ⟨hatLower ▸ wholePart_mono (average_mono hlt hlevels hlower),
      hatUpper ▸ wholePart_mono (average_mono hlt hlevels hupper)⟩
  · have hlevels := Int64.le_iff_toInt_le.2 h
    rw [min_eq_right h, max_eq_left h]
    exact ⟨hatUpper ▸ wholePart_mono (average_anti hlt hlevels hupper),
      hatLower ▸ wholePart_mono (average_anti hlt hlevels hlower)⟩

end

/-! ### Levels in 64 bits -/

/-- All that is computed on the way to a level fits. -/
structure StepsFit (lower upper : Point) (x : Int64) : Prop where
  toEnd : Word.Fits (upper.position.toInt - x.toInt)
  fromBegin : Word.Fits (x.toInt - lower.position.toInt)
  span : Word.Fits (upper.position.toInt - lower.position.toInt)
  first : Word.Fits (lower.level.toInt * (upper.position.toInt - x.toInt))
  second : Word.Fits (upper.level.toInt * (x.toInt - lower.position.toInt))
  sum : Word.Fits (lower.level.toInt * (upper.position.toInt - x.toInt) +
    upper.level.toInt * (x.toInt - lower.position.toInt))

section
variable {lower upper : Point} {x n : Int64}

instance : Decidable (StepsFit lower upper x) :=
  decidable_of_iff (_ ∧ _ ∧ _ ∧ _ ∧ _ ∧ _)
    ⟨fun ⟨toEnd, fromBegin, span, first, second, sum⟩ =>
      ⟨toEnd, fromBegin, span, first, second, sum⟩,
      fun h => ⟨h.toEnd, h.fromBegin, h.span, h.first, h.second, h.sum⟩⟩

theorem interpolate?_outside (h : x < lower.position ∨ upper.position < x) :
    interpolate? lower upper x = some 0 := by
  rw [Int64.lt_iff_toInt_lt, Int64.lt_iff_toInt_lt] at h
  exact if_pos (by simpa using h)

theorem interpolate?_lower (hle : lower.position ≤ upper.position) :
    interpolate? lower upper lower.position = some lower.level := by
  have hle := Int64.le_iff_toInt_le.1 hle
  unfold interpolate?
  rw [if_neg (by simpa using hle), if_pos rfl]

theorem interpolate?_upper (hlt : lower.position < upper.position) :
    interpolate? lower upper upper.position = some upper.level := by
  have hlt := Int64.lt_iff_toInt_lt.1 hlt
  unfold interpolate?
  rw [if_neg (by simpa using hlt.le), if_neg hlt.ne', if_pos rfl]

/-- Between the points a level is exact where all steps fit, and else there is none. -/
theorem interpolate?_eq_some_iff (hlower : lower.position < x) (hupper : x < upper.position) :
    interpolate? lower upper x = some n ↔
      StepsFit lower upper x ∧ n.toInt = wholePart (average lower upper x.toInt) := by
  have hlower := Int64.lt_iff_toInt_lt.1 hlower
  have hupper := Int64.lt_iff_toInt_lt.1 hupper
  rw [average, wholePart_div]
  unfold interpolate?
  rw [if_neg (by simp [hlower.le, hupper.le]), if_neg hlower.ne', if_neg hupper.ne]
  simp only [Option.bind_eq_bind, Option.bind_eq_some_iff, Word.narrow?_eq_some_iff]
  constructor
  · rintro ⟨toEnd, hend, fromBegin, hbegin, span, hspan, first, hfirst, second, hsecond, sum, hsum,
      hn⟩
    rw [hend] at hfirst
    rw [hbegin] at hsecond
    rw [hfirst, hsecond] at hsum
    rw [hsum, hspan] at hn
    exact ⟨⟨hend ▸ Word.fits_toInt _, hbegin ▸ Word.fits_toInt _, hspan ▸ Word.fits_toInt _,
      hfirst ▸ Word.fits_toInt _, hsecond ▸ Word.fits_toInt _, hsum ▸ Word.fits_toInt _⟩, hn⟩
  · intro ⟨h, hn⟩
    obtain ⟨toEnd, hend⟩ := h.toEnd.exists_toInt
    obtain ⟨fromBegin, hbegin⟩ := h.fromBegin.exists_toInt
    obtain ⟨span, hspan⟩ := h.span.exists_toInt
    obtain ⟨first, hfirst⟩ := h.first.exists_toInt
    obtain ⟨second, hsecond⟩ := h.second.exists_toInt
    obtain ⟨sum, hsum⟩ := h.sum.exists_toInt
    exact ⟨toEnd, hend, fromBegin, hbegin, span, hspan, first, hend ▸ hfirst, second,
      hbegin ▸ hsecond, sum, hfirst ▸ hsecond ▸ hsum, hsum ▸ hspan ▸ hn⟩

/-- A level at one of the points is on the line too. -/
theorem toInt_of_interpolate? (hlt : lower.position < upper.position)
    (hlower : lower.position ≤ x) (hupper : x ≤ upper.position)
    (h : interpolate? lower upper x = some n) :
    n.toInt = wholePart (average lower upper x.toInt) := by
  rcases Int64.le_iff_lt_or_eq.1 hlower with hlower | rfl
  · rcases Int64.le_iff_lt_or_eq.1 hupper with hupper | rfl
    · exact ((interpolate?_eq_some_iff hlower hupper).1 h).2
    · rw [average_upper hlt, wholePart_intCast,
        Option.some.inj ((interpolate?_upper hlt).symm.trans h)]
  · rw [average_lower hlt, wholePart_intCast,
      Option.some.inj ((interpolate?_lower (Int64.le_of_lt hlt)).symm.trans h)]

/-- A level is never beyond those of the points, so it fits. -/
theorem StepsFit.exists_level (hlower : lower.position < x) (hupper : x < upper.position)
    (h : StepsFit lower upper x) : ∃ n : Int64, interpolate? lower upper x = some n ∧
      n.toInt = wholePart (average lower upper x.toInt) := by
  have hbetween := wholePart_average_between (Int64.lt_trans hlower hupper)
    (Int64.lt_iff_toInt_lt.1 hlower).le (Int64.lt_iff_toInt_lt.1 hupper).le
  have hfits := (Word.fits_toInt lower.level).between (Word.fits_toInt upper.level) hbetween
  obtain ⟨n, hn⟩ := hfits.exists_toInt
  exact ⟨n, (interpolate?_eq_some_iff hlower hupper).2 ⟨h, hn⟩, hn⟩

theorem interpolate?_eq_none (hlower : lower.position < x) (hupper : x < upper.position)
    (h : ¬ StepsFit lower upper x) : interpolate? lower upper x = none := by
  rw [Option.eq_none_iff_forall_ne_some]
  exact fun n hn => h ((interpolate?_eq_some_iff hlower hupper).1 hn).1

/-- What a transition comes to. -/
def transitionOutcome (lower upper : Point) (x : Int64) : Except EvalError Value :=
  match interpolate? lower upper x with
  | some n => .ok (.integer n)
  | none => .error (.overflow (.function .transition))

theorem run_interpolate (lower upper : Point) (x : Int64) (w : World) :
    (.integer <$> interpolate lower upper x : Run Value).run.run w =
      (transitionOutcome lower upper x, w) := by
  unfold interpolate transitionOutcome
  cases interpolate? lower upper x <;> rfl

theorem transitionOutcome_of_some (h : interpolate? lower upper x = some n) :
    transitionOutcome lower upper x = .ok (.integer n) := by
  rw [transitionOutcome, h]

theorem eq_of_gives_transitionOutcome {level : ℤ} (hlt : lower.position < upper.position)
    (hlower : lower.position ≤ x) (hupper : x ≤ upper.position)
    (h : Gives (transitionOutcome lower upper x) level) :
    level = wholePart (average lower upper x.toInt) := by
  unfold transitionOutcome at h
  split at h
  · next n hn => rw [← gives_integer.1 h, toInt_of_interpolate? hlt hlower hupper hn]
  · exact absurd h not_gives_error

end

/-! ### Calls of transition -/

/-- The numbers that a transition is called with. -/
def Point.numbers (lower upper : Point) (x : Int64) : List Int64 :=
  [x, lower.position, lower.level, upper.position, upper.level]

section
variable {arguments : List Expr} {numbers : List Int64} {scope : Scope} {w w' : World}

/-- Arguments that come to integers. -/
theorem Builtin.run_integerArguments (f : Builtin)
    (h : (arguments.mapM (Expr.eval · scope)).run.run w = (.ok (numbers.map .integer), w')) :
    ((Expr.meanings arguments).mapM fun argument => f.integerArgument argument scope).run.run w =
      (.ok numbers, w') := by
  induction arguments generalizing numbers w with
  | nil =>
    obtain ⟨hnumbers, rfl⟩ := Prod.mk.inj h
    obtain rfl := List.map_eq_nil_iff.1 (Except.ok.inj hnumbers).symm
    rfl
  | cons argument arguments ih =>
    obtain ⟨v, w₁, rest, hv, hrest, hnumbers⟩ := Run.mapM_cons_eq_ok_iff.1 h
    obtain ⟨n, numbers, rfl, rfl, rfl⟩ := List.map_eq_cons_iff.1 hnumbers
    refine Run.mapM_cons_eq_ok_iff.2 ⟨n, w₁, numbers, ?_, ih hrest, rfl⟩
    rw [integerArgument, Run.run_bind, hv]
    rfl

end

namespace Expr

variable {lower upper : Point} {x : Int64} {arguments : List Expr} {scope : Scope} {w w' : World}

theorem run_integers (ns : List Int64) (scope : Scope) (w : World) :
    ((ns.map integer).mapM (eval · scope)).run.run w = (.ok (ns.map .integer), w) := by
  induction ns with
  | nil => rfl
  | cons n ns ih => exact Run.mapM_cons_eq_ok_iff.2 ⟨.integer n, w, _, rfl, ih, rfl⟩

theorem run_transition (h : (arguments.mapM (eval · scope)).run.run w =
      (.ok ((lower.numbers upper x).map .integer), w')) :
    ((call .transition arguments).eval scope).run.run w =
      (.integer <$> interpolate lower upper x : Run Value).run.run w' := by
  have haccepts : Builtin.transition.arity.accepts (meanings arguments).length = true := by
    rw [meanings_eq_map, List.length_map, ← Run.length_of_mapM h]
    rfl
  have hcall : (call .transition arguments).eval scope =
      ((meanings arguments).mapM fun m => Builtin.transition.integerArgument m scope) >>= _ :=
    if_pos haccepts
  rw [hcall, Run.run_bind, Builtin.run_integerArguments _ h]
  rfl

/-- **Transitions are exact, or overflow.** Outside the two points a transition is 0, and at a
point it is the level there. Between them it is the whole part of the weighted average if all
steps fit, and an overflow if one does not. So a transition that succeeds is between the levels,
and one that goes on to the right does not turn back. -/
theorem eval_transition (hlt : lower.position < upper.position)
    (h : (arguments.mapM (eval · scope)).run.run w =
      (.ok ((lower.numbers upper x).map .integer), w')) :
    let outcome := (((call .transition arguments).eval scope).run.run w).1
    (x < lower.position ∨ upper.position < x → Gives outcome 0) ∧
      (x = lower.position → Gives outcome lower.level.toInt) ∧
      (x = upper.position → Gives outcome upper.level.toInt) ∧
      (lower.position < x → x < upper.position →
        (StepsFit lower upper x → Gives outcome (wholePart (average lower upper x.toInt))) ∧
        (¬ StepsFit lower upper x → outcome = .error (.overflow (.function .transition)))) ∧
      (lower.position ≤ x → x ≤ upper.position → ∀ n, Gives outcome n →
        min lower.level.toInt upper.level.toInt ≤ n ∧
        n ≤ max lower.level.toInt upper.level.toInt ∧
        ∀ x' arguments' scope' u u' n', x ≤ x' → x' ≤ upper.position →
          (arguments'.mapM (eval · scope')).run.run u =
            (.ok ((lower.numbers upper x').map .integer), u') →
          Gives (((call .transition arguments').eval scope').run.run u).1 n' →
          (lower.level ≤ upper.level → n ≤ n') ∧ (upper.level ≤ lower.level → n' ≤ n)) := by
  intro outcome
  have houtcome : outcome = transitionOutcome lower upper x :=
    congrArg Prod.fst ((run_transition h).trans (run_interpolate lower upper x w'))
  have hgives {m : Int64} {n : ℤ} (hm : interpolate? lower upper x = some m) (hn : m.toInt = n) :
      Gives outcome n :=
    ⟨m, houtcome.trans (transitionOutcome_of_some hm), hn⟩
  refine ⟨fun hout => hgives (interpolate?_outside hout) rfl, ?lower, ?upper, ?inside, ?order⟩
  case lower =>
    rintro rfl
    exact hgives (interpolate?_lower (Int64.le_of_lt hlt)) rfl
  case upper =>
    rintro rfl
    exact hgives (interpolate?_upper hlt) rfl
  case inside =>
    intro hlower hupper
    constructor
    · intro hsteps
      obtain ⟨m, hm, hlevel⟩ := hsteps.exists_level hlower hupper
      exact hgives hm hlevel
    · intro hsteps
      rw [houtcome, transitionOutcome, interpolate?_eq_none hlower hupper hsteps]
  case order =>
    intro hlower hupper n hn
    have hn := eq_of_gives_transitionOutcome hlt hlower hupper (houtcome ▸ hn)
    obtain ⟨hmin, hmax⟩ := wholePart_average_between hlt (Int64.le_iff_toInt_le.1 hlower)
      (Int64.le_iff_toInt_le.1 hupper)
    refine ⟨hn ▸ hmin, hn ▸ hmax, fun x' arguments' scope' u u' n' hle hupper' h' hn' => ?_⟩
    rw [run_transition h', run_interpolate] at hn'
    have hn' := eq_of_gives_transitionOutcome hlt (Int64.le_trans hlower hle) hupper' hn'
    have hle := Int64.le_iff_toInt_le.1 hle
    rw [hn, hn']
    exact ⟨fun hlevels => wholePart_mono (average_mono hlt hlevels hle),
      fun hlevels => wholePart_mono (average_anti hlt hlevels hle)⟩

/-- Between -10 and 10 a third of the way is -10/3, truncated toward zero, and what follows is no
less. Over the whole range the span does not fit. -/
theorem transition_through_zero :
    let scope : Scope := .object .nothing
    let w := World.fresh (.ofWords fun _ => 0) fun _ _ => .ok .missing
    let low : Point := ⟨0, -10⟩
    let high : Point := ⟨3, 10⟩
    let least : Point := ⟨-9223372036854775808, 0⟩
    let greatest : Point := ⟨9223372036854775807, 0⟩
    let transition := fun (lower upper : Point) x =>
      (((call .transition ((lower.numbers upper x).map .integer)).eval scope).run.run w).1
    Gives (transition low high 1) (-3) ∧ Gives (transition low high 2) 3 ∧ (-3 : ℤ) ≤ 3 ∧
      transition least greatest 0 = .error (.overflow (.function .transition)) := by
  intro scope w low high least greatest transition
  have hlt : low.position < high.position := by decide
  have hwide : least.position < greatest.position := by decide
  obtain ⟨-, -, -, hfirst, horder⟩ := eval_transition hlt (run_integers (low.numbers high 1) scope w)
  obtain ⟨-, -, -, hsecond, -⟩ := eval_transition hlt (run_integers (low.numbers high 2) scope w)
  obtain ⟨-, -, -, hbeyond, -⟩ :=
    eval_transition hwide (run_integers (least.numbers greatest 0) scope w)
  have hone : Gives (transition low high 1) (-3) := by
    have hlevel : wholePart (average low high (1 : Int64).toInt) = -3 := by
      rw [average, wholePart_div]
      decide
    exact hlevel ▸ (hfirst (by decide) (by decide)).1 (by decide)
  have htwo : Gives (transition low high 2) 3 := by
    have hlevel : wholePart (average low high (2 : Int64).toInt) = 3 := by
      rw [average, wholePart_div]
      decide
    exact hlevel ▸ (hsecond (by decide) (by decide)).1 (by decide)
  have hordered := (horder (by decide) (by decide) _ hone).2.2 2 _ scope w w 3 (by decide)
    (by decide) (run_integers (low.numbers high 2) scope w) htwo
  exact ⟨hone, htwo, hordered.1 (by decide), (hbeyond (by decide) (by decide)).2 (by decide)⟩

end Expr

end Formulary
