import Formulary.Proofs.Level
import Mathlib.Order.Fin.Basic
import Mathlib.Order.Interval.Set.UnorderedInterval

/-! Colors between colors.

A color is three channels of two decimal digits, and a color between two others is a level
between theirs in each channel (`mixture?`). -/
namespace Formulary

/-! ### Channels -/

/-- A color: three channels of two decimal digits each. -/
structure Color where
  red : Fin 100
  green : Fin 100
  blue : Fin 100
  deriving DecidableEq

namespace Color

/-- The number that a color is written as. -/
def code (c : Color) : ℤ :=
  (c.red : ℕ) * 10000 + (c.green : ℕ) * 100 + (c.blue : ℕ)

/-- In each channel between two other colors. -/
structure Between (first second c : Color) : Prop where
  red : c.red ∈ Set.uIcc first.red second.red
  green : c.green ∈ Set.uIcc first.green second.green
  blue : c.blue ∈ Set.uIcc first.blue second.blue

/-- Numbers of six digits are colors. -/
theorem exists_code {n : ℤ} (hnonneg : 0 ≤ n) (hle : n ≤ 999999) : ∃ c : Color, c.code = n := by
  refine ⟨⟨⟨(n / 10000).toNat, by omega⟩, ⟨(n / 100 % 100).toNat, by omega⟩,
    ⟨(n % 100).toNat, by omega⟩⟩, ?_⟩
  simp only [code]
  omega

end Color

/-- A channel as an integer. -/
def digits (d : Fin 100) : Int64 :=
  Int64.ofInt (d : ℕ)

theorem toInt_digits (d : Fin 100) : (digits d).toInt = (d : ℕ) := by
  have := d.isLt
  refine Word.toInt_ofInt ?_
  simp only [Word.Fits, Word.least, Word.greatest]
  omega

section
variable {color : Int64} {c : Color}

/-- The channels of a color come apart again. -/
theorem channels_eq (h : color.toInt = c.code) :
    channel color 10000 = digits c.red ∧ channel color 100 = digits c.green ∧
      channel color 1 = digits c.blue := by
  have hnonneg : 0 ≤ c.code := by
    simp only [Color.code]
    omega
  have hchannel (place : ℤ) (hplace : 0 < place) :
      channel color place = Int64.ofInt (c.code / place % 100) := by
    rw [channel, h, Int.tdiv_eq_ediv_of_nonneg hnonneg,
      Int.tmod_eq_emod_of_nonneg (Int.ediv_nonneg hnonneg hplace.le)]
  have := c.red.isLt
  have := c.green.isLt
  have := c.blue.isLt
  refine ⟨?_, ?_, ?_⟩
  all_goals
    rw [hchannel _ (by decide), digits]
    congr 1
    simp only [Color.code]
    omega

theorem packChannels_digits (c : Color) :
    (packChannels [digits c.red, digits c.green, digits c.blue]).toInt = c.code := by
  have hclamp (d : Fin 100) : clampChannel (digits d) = (d : ℕ) := by
    rw [clampChannel, toInt_digits]
    omega
  have hpacked : packChannels [digits c.red, digits c.green, digits c.blue] =
      Int64.ofInt c.code := by
    simp only [packChannels, List.foldl_cons, List.foldl_nil, hclamp, Color.code]
    congr 1
    ring
  rw [hpacked]
  refine Word.toInt_ofInt ?_
  simp only [Word.Fits, Word.least, Word.greatest, Color.code]
  omega

end

/-! ### Colors on one segment -/

/-- The color at `x` between two colors: a level in each channel, or nothing where a step does
not fit. -/
def mixture? (start stop : Int64) (first second : Color) (x : Int64) : Option Int64 := do
  let red ← interpolate? ⟨start, digits first.red⟩ ⟨stop, digits second.red⟩ x
  let green ← interpolate? ⟨start, digits first.green⟩ ⟨stop, digits second.green⟩ x
  let blue ← interpolate? ⟨start, digits first.blue⟩ ⟨stop, digits second.blue⟩ x
  some (packChannels [red, green, blue])

/-- Levels that are channels are packed into a color. -/
theorem mixture?_of_channels {start stop x : Int64} {first second c : Color}
    (hred : interpolate? ⟨start, digits first.red⟩ ⟨stop, digits second.red⟩ x =
      some (digits c.red))
    (hgreen : interpolate? ⟨start, digits first.green⟩ ⟨stop, digits second.green⟩ x =
      some (digits c.green))
    (hblue : interpolate? ⟨start, digits first.blue⟩ ⟨stop, digits second.blue⟩ x =
      some (digits c.blue)) :
    ∃ n : Int64, mixture? start stop first second x = some n ∧ n.toInt = c.code := by
  refine ⟨_, ?_, packChannels_digits c⟩
  rw [mixture?, hred, hgreen, hblue]
  rfl

/-- A level between two channels is a channel between them. -/
theorem exists_digits {start stop x n : Int64} {a b : Fin 100} (hlt : start < stop)
    (hstart : start ≤ x) (hstop : x ≤ stop)
    (h : interpolate? ⟨start, digits a⟩ ⟨stop, digits b⟩ x = some n) :
    ∃ d ∈ Set.uIcc a b, n = digits d := by
  have hpoints : (⟨start, digits a⟩ : Point).position < (⟨stop, digits b⟩ : Point).position := hlt
  obtain ⟨hmin, hmax⟩ := wholePart_average_between hpoints (Int64.le_iff_toInt_le.1 hstart)
    (Int64.le_iff_toInt_le.1 hstop)
  rw [← toInt_of_interpolate? hpoints hstart hstop h, toInt_digits, toInt_digits] at hmin hmax
  have := a.isLt
  have := b.isLt
  refine ⟨⟨n.toInt.toNat, by omega⟩, ?_, ?_⟩
  · rw [Set.mem_uIcc, Fin.le_def, Fin.le_def, Fin.le_def, Fin.le_def]
    simp only
    omega
  · rw [← Int64.toInt_inj, toInt_digits]
    simp only
    omega

section
variable {start stop x n : Int64} {first second : Color}

/-- A color between two others is between them in each channel. -/
theorem between_of_mixture? (hlt : start < stop) (hstart : start ≤ x) (hstop : x ≤ stop)
    (h : mixture? start stop first second x = some n) :
    ∃ c : Color, n.toInt = c.code ∧ first.Between second c := by
  simp only [mixture?, Option.bind_eq_bind, Option.bind_eq_some_iff] at h
  obtain ⟨red, hred, green, hgreen, blue, hblue, hn⟩ := h
  obtain ⟨r, hr, rfl⟩ := exists_digits hlt hstart hstop hred
  obtain ⟨g, hg, rfl⟩ := exists_digits hlt hstart hstop hgreen
  obtain ⟨b, hb, rfl⟩ := exists_digits hlt hstart hstop hblue
  obtain rfl := Option.some.inj hn
  exact ⟨⟨r, g, b⟩, packChannels_digits ⟨r, g, b⟩, hr, hg, hb⟩

end

/-! ### Runs on one segment -/

section
variable {start stop : Int64} {first second : Color}

/-- A color as a run: three levels, packed. -/
def mixture (start stop : Int64) (first second : Color) (x : Int64) : Run Int64 := do
  let red ← interpolate ⟨start, digits first.red⟩ ⟨stop, digits second.red⟩ x
  let green ← interpolate ⟨start, digits first.green⟩ ⟨stop, digits second.green⟩ x
  let blue ← interpolate ⟨start, digits first.blue⟩ ⟨stop, digits second.blue⟩ x
  pure (packChannels [red, green, blue])

theorem mixture_eq (start stop : Int64) (first second : Color) (x : Int64) :
    mixture start stop first second x =
      match mixture? start stop first second x with
      | some n => pure n
      | none => throw (.overflow (.function .transition)) := by
  unfold mixture mixture? interpolate
  cases interpolate? ⟨start, digits first.red⟩ ⟨stop, digits second.red⟩ x with
  | none => rfl
  | some red =>
    cases interpolate? ⟨start, digits first.green⟩ ⟨stop, digits second.green⟩ x with
    | none => rfl
    | some green =>
      cases interpolate? ⟨start, digits first.blue⟩ ⟨stop, digits second.blue⟩ x <;> rfl

/-- The world has no part in a color. -/
theorem mixture_outcome (start stop : Int64) (first second : Color) (x : Int64) (w u : World) :
    ((.integer <$> mixture start stop first second x : Run Value).run.run w).1 =
      ((.integer <$> mixture start stop first second x : Run Value).run.run u).1 := by
  rw [mixture_eq]
  cases mixture? start stop first second x <;> rfl

theorem between_of_gives_mixture {x : Int64} {n : ℤ} {w : World} (hlt : start < stop)
    (hstart : start ≤ x) (hstop : x ≤ stop)
    (h : Gives ((.integer <$> mixture start stop first second x : Run Value).run.run w).1 n) :
    ∃ c : Color, n = c.code ∧ first.Between second c := by
  rw [mixture_eq] at h
  cases hcolor : mixture? start stop first second x with
  | none =>
    rw [hcolor] at h
    exact absurd h not_gives_error
  | some m =>
    rw [hcolor] at h
    obtain ⟨c, hc, hbetween⟩ := between_of_mixture? hlt hstart hstop hcolor
    exact ⟨c, (gives_integer.1 h).symm.trans hc, hbetween⟩

/-- The color on a segment of a line. -/
def segmentColor (a b : Point) (x : Int64) : Run Int64 := do
  let channels ← [10000, 100, 1].mapM fun place =>
    interpolate ⟨a.position, channel a.level place⟩ ⟨b.position, channel b.level place⟩ x
  pure (packChannels channels)

theorem segmentColor_eq {a b : Point} (ha : a.level.toInt = first.code)
    (hb : b.level.toInt = second.code) (x : Int64) :
    segmentColor a b x = mixture a.position b.position first second x := by
  obtain ⟨hared, hagreen, hablue⟩ := channels_eq ha
  obtain ⟨hbred, hbgreen, hbblue⟩ := channels_eq hb
  simp only [segmentColor, mixture, List.mapM_cons, List.mapM_nil, hared, hagreen, hablue, hbred,
    hbgreen, hbblue, bind_assoc, pure_bind]

variable {a b : Point}

/-- At a point of a segment the color is the color of the point. -/
theorem segmentColor_lower (ha : a.level.toInt = first.code) (hb : b.level.toInt = second.code)
    (hle : a.position ≤ b.position) : segmentColor a b a.position = pure a.level := by
  obtain ⟨n, hn, hcode⟩ : ∃ n : Int64,
      mixture? a.position b.position first second a.position = some n ∧ n.toInt = first.code :=
    mixture?_of_channels (interpolate?_lower hle) (interpolate?_lower hle) (interpolate?_lower hle)
  rw [segmentColor_eq ha hb, mixture_eq, hn, Int64.toInt_inj.1 (hcode.trans ha.symm)]

theorem segmentColor_upper (ha : a.level.toInt = first.code) (hb : b.level.toInt = second.code)
    (hlt : a.position < b.position) : segmentColor a b b.position = pure b.level := by
  obtain ⟨n, hn, hcode⟩ : ∃ n : Int64,
      mixture? a.position b.position first second b.position = some n ∧ n.toInt = second.code :=
    mixture?_of_channels (interpolate?_upper hlt) (interpolate?_upper hlt) (interpolate?_upper hlt)
  rw [segmentColor_eq ha hb, mixture_eq, hn, Int64.toInt_inj.1 (hcode.trans hb.symm)]

end

namespace Expr

/-- A call of `transition` with numbers. -/
def transitionOf (lower upper : Point) (x : Int64) : Expr :=
  call .transition ((lower.numbers upper x).map integer)

/-- The color of three transitions: `rgb(transition(…), transition(…), transition(…))`. -/
def rgbOfTransitions (start stop : Int64) (first second : Color) (x : Int64) : Expr :=
  call .rgb [transitionOf ⟨start, digits first.red⟩ ⟨stop, digits second.red⟩ x,
    transitionOf ⟨start, digits first.green⟩ ⟨stop, digits second.green⟩ x,
    transitionOf ⟨start, digits first.blue⟩ ⟨stop, digits second.blue⟩ x]

theorem integerArgument_transitionOf (f : Builtin) (lower upper : Point) (x : Int64)
    (scope : Scope) :
    f.integerArgument (transitionOf lower upper x).eval scope = interpolate lower upper x := by
  have heval : (transitionOf lower upper x).eval scope = .integer <$> interpolate lower upper x :=
    funext fun w => run_transition (run_integers _ scope w)
  rw [Builtin.integerArgument, heval, bind_map_left]
  exact bind_pure _

theorem eval_rgbOfTransitions (start stop : Int64) (first second : Color) (x : Int64)
    (scope : Scope) :
    (rgbOfTransitions start stop first second x).eval scope =
      .integer <$> mixture start stop first second x := by
  have hcall : (rgbOfTransitions start stop first second x).eval scope = (do
      let channels ← (meanings [_, _, _]).mapM fun m => Builtin.rgb.integerArgument m scope
      pure (.integer (packChannels channels))) := rfl
  rw [hcall]
  simp only [meanings, List.mapM_cons, List.mapM_nil, integerArgument_transitionOf, mixture,
    bind_assoc, pure_bind, map_bind, map_pure]

end Expr

end Formulary
