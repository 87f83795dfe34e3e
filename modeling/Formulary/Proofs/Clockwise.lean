import Mathlib.Tactic.Ring
import Formulary.Proofs.Ring

/-! The walk around a ring.

`Proofs.Ring` says which locations a ring has; this module says in which order. In columns and
half tiles the side that starts at one corner of the rim leads to the next by a clockwise turn
around the center, and every step on it turns the same way (`Cell.clockwise_rim`). A position
in the list is a side and a number of steps on it (`HasRoom.getElem?_ring`); the end of a side
is the start of the next, the last one included, so the walk closes up.

It is at its north-west corner only after the first side, the one that leads north. -/
namespace Formulary

theorem Direction.corner_cross_down (d : Direction) :
    d.corner.east * d.down - d.corner.down * d.east = 2 := by
  cases d <;> rfl

theorem Direction.all_getElem?_succ {q : Nat} (h : q < 6) :
    all[(q + 1) % 6]? = all[q]?.map turn := by
  revert q
  decide

/-- In a row of blocks of one length, the block and the place in it. -/
theorem getElem?_flatMap_range {α β : Type} (f : α → Nat → β) (xs : List α) (q : Nat)
    {r n : Nat} (h : n < r) :
    (xs.flatMap fun x => (List.range r).map (f x))[q * r + n]? = xs[q]?.map (f · n) := by
  induction xs generalizing q with
  | nil => simp
  | cons x xs ih =>
    rw [List.flatMap_cons]
    cases q with
    | zero =>
      rw [List.getElem?_append_left (by simpa using h)]
      simp [h]
    | succ q =>
      have hlength : ((List.range r).map (f x)).length = r := by simp
      have hindex : (q + 1) * r + n = r + (q * r + n) := by
        rw [Nat.succ_mul]
        omega
      rw [hindex, List.getElem?_append_right (by omega), hlength, Nat.add_sub_cancel_left, ih,
        List.getElem?_cons_succ]

namespace Cell

/-- Seen from `c`, the way from `a` to `b` is a clockwise turn by less than half a turn: the
cross product of the displacements is positive, as depths grow downwards. -/
def Clockwise (c a b : Cell) : Prop :=
  (a.depth - c.depth) * (b.x - c.x) < (a.x - c.x) * (b.depth - c.depth)

instance (c a b : Cell) : Decidable (Clockwise c a b) :=
  inferInstanceAs (Decidable (_ < _))

/-- From the north to the north-east, and not back. -/
example : Clockwise ⟨0, 0⟩ ⟨0, -1⟩ ⟨1, -1⟩ ∧ ¬ Clockwise ⟨0, 0⟩ ⟨1, -1⟩ ⟨0, -1⟩ := by decide

theorem step_rim (c : Cell) {radius : Nat} (d : Direction) (n : Nat) :
    (c.rim radius d n).step d = c.rim radius d (n + 1) := by
  refine eq_of_depth ?_ ?_
  · rw [x_step, x_rim, x_rim, Int.natCast_succ, Int.add_mul]
    omega
  · rw [depth_step, depth_rim, depth_rim, Int.natCast_succ, Int.add_mul]
    omega

/-- Every step along a side turns clockwise around the center. -/
theorem clockwise_rim (c : Cell) {radius : Nat} (hr : radius ≠ 0) (d : Direction) (n : Nat) :
    Clockwise c (c.rim radius d n) ((c.rim radius d n).step d) := by
  have hcross : ((c.rim radius d n).x - c.x) * (((c.rim radius d n).step d).depth - c.depth) -
      ((c.rim radius d n).depth - c.depth) * (((c.rim radius d n).step d).x - c.x) =
        radius * (d.corner.east * d.down - d.corner.down * d.east) := by
    rw [x_step, depth_step, x_rim, depth_rim]
    ring
  rw [d.corner_cross_down] at hcross
  rw [Clockwise]
  omega

end Cell

namespace Location

variable {center : Location} {radius : Nat}

/-- A center whose ring stays in the range has room for it. -/
theorem hasRoom_of_ring_fits
    (h : ∀ k, center.cell.distance k = radius → Word.Fits k.x ∧ Word.Fits k.y) :
    HasRoom center radius := by
  have corner (d : Direction) := h (center.cell.go d radius) (Cell.distance_go _ d _)
  have column (d : Direction) :
      (center.cell.go d radius).x = center.x.toInt + radius * d.east := Cell.x_go ..
  have row (d : Direction) (hd : d.east = 0) :
      2 * (center.cell.go d radius).y = 2 * center.y.toInt + radius * d.down := by
    have hx := column d
    have hdepth : 2 * (center.cell.go d radius).y + (center.cell.go d radius).x % 2 =
        2 * center.y.toInt + center.x.toInt % 2 + radius * d.down := Cell.depth_go ..
    rw [hd, Int.mul_zero, Int.add_zero] at hx
    rw [hx] at hdepth
    omega
  have west := column .northWest
  have east := column .northEast
  have north := row .north rfl
  have south := row .south rfl
  simp only [Direction.east, Direction.down] at west east north south
  constructor
  · convert (corner .northWest).1 using 1; omega
  · convert (corner .northEast).1 using 1; omega
  · convert (corner .north).2 using 1; omega
  · convert (corner .south).2 using 1; omega

theorem march_succ (l : Location) (d : Direction) (n : Nat) :
    l.march d (n + 1) = (l.march d n).step d := by
  induction n generalizing l with
  | zero => rfl
  | succ n ih => rw [march, ih, march]

/-- A step that stays in the range leads to a neighbour. -/
theorem adjacent_step {l : Location} {d : Direction} (h : (l.step d).cell = l.cell.step d) :
    l.adjacent (l.step d) = true := by
  have hone : (l.distance (l.step d)).toInt = (1 : Int64).toInt := by
    rw [toInt_distance, h, Cell.distance_step]
    decide
  simpa [adjacent] using Int64.toInt_inj.1 hone

namespace HasRoom

theorem step_rim (h : HasRoom center radius) (d : Direction) {n : Nat} (hn : n < radius) :
    ((center.rim radius d n).step d).cell = (center.rim radius d n).cell.step d := by
  refine step_cell_of_fits ?_
  rw [h.rim_cell d (Nat.le_of_lt hn), Cell.step_rim]
  exact h.fits (Nat.le_of_eq (Cell.distance_rim _ d hn))

/-- The location at a position: the side, and the steps made on it. -/
theorem getElem?_ring (h : HasRoom center radius) (hr : radius ≠ 0) (q : Nat) {n : Nat}
    (hn : n < radius) :
    (center.ring radius)[q * radius + n]? =
      Direction.all[q]?.map fun d => center.rim radius d n := by
  rw [h.ring_eq hr]
  exact getElem?_flatMap_range _ _ q hn

/-- Where a side starts. -/
theorem getElem?_ring_corner (h : HasRoom center radius) (hr : radius ≠ 0) (q : Nat) :
    (center.ring radius)[q * radius]? =
      Direction.all[q]?.map fun d => center.march d.corner radius :=
  h.getElem?_ring hr q (Nat.pos_of_ne_zero hr)

/-- After a location comes the one a step further along its side, also where that step ends the
side, and the last side. -/
theorem getElem?_ring_succ (h : HasRoom center radius) (hr : radius ≠ 0) {q n : Nat}
    (hq : q < 6) (hn : n < radius) {d : Direction} (hd : Direction.all[q]? = some d) :
    (center.ring radius)[(q * radius + n + 1) % (6 * radius)]? =
      some ((center.rim radius d n).step d) := by
  have hstep : (center.rim radius d n).step d = center.rim radius d (n + 1) :=
    (march_succ _ d n).symm
  rw [hstep]
  have hside : q * radius + radius ≤ 6 * radius := by
    rw [← Nat.succ_mul]
    exact Nat.mul_le_mul_right radius hq
  by_cases hlast : n + 1 < radius
  · rw [Nat.mod_eq_of_lt (by omega), Nat.add_assoc, h.getElem?_ring hr q hlast, hd]
    rfl
  · obtain rfl : radius = n + 1 := by omega
    have hindex : (q * (n + 1) + n + 1) % (6 * (n + 1)) = (q + 1) % 6 * (n + 1) := by
      rw [Nat.add_assoc, ← Nat.succ_mul, Nat.mul_mod_mul_right]
    rw [hindex, h.getElem?_ring_corner hr, Direction.all_getElem?_succ hq, hd, h.rim_end d]
    rfl

end HasRoom

/-- **A ring is walked clockwise, from its south-west corner.** Around a center whose ring stays
in the range the walk has six sides of `radius` steps, each in one direction, one side for each
direction in turn. It starts `radius` steps to the south-west of the center and is `radius`
steps to the north-west of it one side later. Every location is followed by a neighbour that
lies further clockwise, and the last one by the first. -/
theorem ring_clockwise (hr : radius ≠ 0)
    (hfits : ∀ k, center.cell.distance k = radius → Word.Fits k.x ∧ Word.Fits k.y) :
    (center.ring radius).length = 6 * radius ∧
      (center.ring radius)[0]? = some (center.march .southWest radius) ∧
      (center.ring radius)[radius]? = some (center.march .northWest radius) ∧
      ∀ i < 6 * radius, ∃ d a b,
        Direction.all[i / radius]? = some d ∧
        (center.ring radius)[i]? = some a ∧
        (center.ring radius)[(i + 1) % (6 * radius)]? = some b ∧
        b = a.step d ∧ a.adjacent b = true ∧ Cell.Clockwise center.cell a.cell b.cell := by
  have h : HasRoom center radius := hasRoom_of_ring_fits hfits
  refine ⟨length_ring center hr, ?_, ?_, fun i hi => ?_⟩
  · simpa [Direction.all, Direction.corner] using h.getElem?_ring_corner hr 0
  · simpa [Direction.all, Direction.corner] using h.getElem?_ring_corner hr 1
  have hq : i / radius < 6 := Nat.div_lt_of_lt_mul (Nat.mul_comm 6 radius ▸ hi)
  have hn : i % radius < radius := Nat.mod_lt i (Nat.pos_of_ne_zero hr)
  have hi : i / radius * radius + i % radius = i := Nat.div_add_mod' i radius
  obtain ⟨d, hd⟩ : ∃ d, Direction.all[i / radius]? = some d :=
    ⟨_, List.getElem?_eq_getElem (show i / radius < Direction.all.length from hq)⟩
  have hstep := h.step_rim d hn
  refine ⟨d, center.rim radius d (i % radius), _, hd, ?_, ?_, rfl, adjacent_step hstep, ?_⟩
  · have hat := h.getElem?_ring hr (i / radius) hn
    rwa [hi, hd, Option.map_some] at hat
  · have hnext := h.getElem?_ring_succ hr hq hn hd
    rwa [hi] at hnext
  · rw [hstep, h.rim_cell d (Nat.le_of_lt hn)]
    exact Cell.clockwise_rim _ hr d _

/-- The ring next to a corner of the range; it touches both of its ends. -/
theorem ring_clockwise_near_corner :
    let center : Location := ⟨Int64.minValue + 1, Int64.maxValue - 1⟩
    (∀ k, center.cell.distance k = 1 → Word.Fits k.x ∧ Word.Fits k.y) ∧
      (center.ring 1)[0]? = some ⟨Int64.minValue, Int64.maxValue⟩ ∧
      (center.ring 1)[1]? = some ⟨Int64.minValue, Int64.maxValue - 1⟩ ∧
      ∃ d a b, (center.ring 1)[5]? = some a ∧ (center.ring 1)[0]? = some b ∧
        b = a.step d ∧ a.adjacent b = true := by
  intro center
  have hroom : HasRoom center 1 := by decide
  have hfits : ∀ k, center.cell.distance k = 1 → Word.Fits k.x ∧ Word.Fits k.y :=
    fun k hk => hroom.fits (Nat.le_of_eq hk)
  obtain ⟨-, hfirst, hsecond, hwalk⟩ := ring_clockwise (by decide) hfits
  obtain ⟨d, a, b, -, ha, hb, hstep, hadjacent, -⟩ := hwalk 5 (by decide)
  exact ⟨hfits, hfirst.trans (by decide), hsecond.trans (by decide), d, a, b, ha, hb, hstep,
    hadjacent⟩

/-- The ring of radius one around (5, 5) starts to the south-west of it, at (4, 6), and not at
its north-west corner, (4, 5). -/
theorem ring_starts_off_north_west :
    (ring ⟨5, 5⟩ 1)[0]? = some ⟨4, 6⟩ ∧ march ⟨5, 5⟩ .northWest 1 = ⟨4, 5⟩ ∧
      (ring ⟨5, 5⟩ 1)[0]? ≠ some (march ⟨5, 5⟩ .northWest 1) := by
  decide

end Location

end Formulary
