import Mathlib.Order.Bounds.Defs
import Formulary.Hex.Location

/-! Distance is the length of a shortest walk.

A row number does not say how low a cell lies: odd columns sit half a tile lower, and going
north-east changes the row in one column and not in the next. Counted in half tiles
(`Cell.depth`) a direction is the same displacement from every cell (`x_step`, `depth_step`),
and the distance is a function of how far two cells are apart in columns and in depth
(`distance_eq`). From there,

* one step changes the distance by at most one, so no walk is shorter than it
  (`distance_le_length`);
* a step `toward` a cell brings it one nearer and stays in the rectangle the two cells span,
  so some walk has exactly that length and passes no coordinate out of range
  (`exists_walk`).

A step of a location that is kept in the range is a step of the grid or none
(`Location.step_cell`), whichever coordinates are at an end. -/
namespace Formulary

namespace Direction

/-- The columns a direction goes east. -/
def east : Direction → Int
  | north | south => 0
  | northEast | southEast => 1
  | northWest | southWest => -1

/-- The half tiles a direction goes down. -/
def down : Direction → Int
  | north => -2
  | northEast | northWest => -1
  | southEast | southWest => 1
  | south => 2

theorem natAbs_east_le (d : Direction) : d.east.natAbs ≤ 1 := by
  cases d <;> decide

theorem natAbs_east_add_down (d : Direction) : d.east.natAbs + d.down.natAbs = 2 := by
  cases d <;> rfl

end Direction

namespace Cell

/-! ### Depth -/

/-- How low a cell lies, in half tiles. -/
def depth (c : Cell) : Int :=
  2 * c.y + c.x % 2

theorem even_apart (a b : Cell) :
    ((a.x - b.x).natAbs + (a.depth - b.depth).natAbs) % 2 = 0 := by
  simp only [depth]
  omega

theorem depth_le_of_row {a b : Cell} (h : a.y ≤ b.y) : a.depth ≤ b.depth + 1 := by
  simp only [depth]
  omega

theorem x_step (c : Cell) (d : Direction) : (c.step d).x = c.x + d.east := by
  cases d <;> simp [step, Direction.east, Int.sub_eq_add_neg]

theorem depth_step (c : Cell) (d : Direction) : (c.step d).depth = c.depth + d.down := by
  rcases Int.emod_two_eq c.x with hc | hc <;> cases d <;>
    simp [step, depth, Direction.down, inEvenColumn, hc] <;> omega

/-- Rows and penalty count half tiles in pairs; a step into a column of the other parity
brings one of them. -/
theorem depth_sub (a b : Cell) :
    (a.depth - b.depth).natAbs + (a.x - b.x).natAbs % 2 =
        2 * ((a.y - b.y).natAbs + penalty a b) ∨
      (a.x - b.x).natAbs % 2 = 1 ∧ (a.depth - b.depth).natAbs = 1 ∧
        (a.y - b.y).natAbs + penalty a b = 0 := by
  have hx : (a.x - b.x).natAbs % 2 = (a.x % 2 - b.x % 2).natAbs := by omega
  rw [hx]
  rcases Int.emod_two_eq a.x with ha | ha <;> rcases Int.emod_two_eq b.x with hb | hb
  case inl.inl | inr.inr => simp [penalty, inEvenColumn, depth, ha, hb]; omega
  case inl.inr | inr.inl => simp [penalty, inEvenColumn, depth, ha, hb]; split <;> omega

/-- The distance from the displacement: each step moves one column or two half tiles, and
one into the next column moves one half tile as well. -/
theorem distance_eq (a b : Cell) :
    distance a b = max (a.x - b.x).natAbs
      (((a.x - b.x).natAbs + (a.depth - b.depth).natAbs) / 2) := by
  have h := depth_sub a b
  simp only [distance]
  generalize (a.x - b.x).natAbs = columns at h ⊢
  omega

/-! ### No walk is shorter -/

/-- Where a walk leads. -/
def follow (c : Cell) (ds : List Direction) : Cell :=
  ds.foldl step c

theorem follow_append (c : Cell) (ds es : List Direction) :
    c.follow (ds ++ es) = (c.follow ds).follow es :=
  List.foldl_append

theorem distance_step_le (a c : Cell) (d : Direction) :
    distance a (c.step d) ≤ distance a c + 1 := by
  have hx : (a.x - (c.step d).x).natAbs ≤ (a.x - c.x).natAbs + d.east.natAbs := by
    rw [x_step]
    omega
  have hd : (a.depth - (c.step d).depth).natAbs ≤ (a.depth - c.depth).natAbs + d.down.natAbs := by
    rw [depth_step]
    omega
  have := d.natAbs_east_le
  have := d.natAbs_east_add_down
  rw [distance_eq, distance_eq]
  omega

theorem distance_follow_le (a c : Cell) (ds : List Direction) :
    distance a (c.follow ds) ≤ distance a c + ds.length := by
  induction ds generalizing c with
  | nil => exact Nat.le_refl _
  | cons d ds ih =>
    calc distance a ((c.step d).follow ds)
        ≤ distance a (c.step d) + ds.length := ih (c.step d)
      _ ≤ distance a c + 1 + ds.length := Nat.add_le_add_right (distance_step_le a c d) _
      _ = distance a c + (d :: ds).length := by rw [List.length_cons]; omega

theorem distance_le_length (a : Cell) (ds : List Direction) :
    distance a (a.follow ds) ≤ ds.length := by
  have h := distance_follow_le a a ds
  rwa [distance_self, Nat.zero_add] at h

/-! ### A walk of that length -/

/-- A direction that leads towards another cell: into a column nearer to it, or along the
column they share, and not past the row it lies in. -/
inductive Toward (a b : Cell) : Direction → Prop where
  | north (column : a.x = b.x) (row : b.y ≤ (a.step .north).y) : Toward a b .north
  | northEast (column : a.x < b.x) (row : b.y ≤ (a.step .northEast).y) : Toward a b .northEast
  | southEast (column : a.x < b.x) (row : (a.step .southEast).y ≤ b.y) : Toward a b .southEast
  | south (column : a.x = b.x) (row : (a.step .south).y ≤ b.y) : Toward a b .south
  | southWest (column : b.x < a.x) (row : (a.step .southWest).y ≤ b.y) : Toward a b .southWest
  | northWest (column : b.x < a.x) (row : b.y ≤ (a.step .northWest).y) : Toward a b .northWest

/-- The two ways into the next column end in one row and the next, so one of them does not
lead past the row to be reached. -/
theorem exists_toward {a b : Cell} (h : a ≠ b) : ∃ d, Toward a b d := by
  have east : b.y ≤ (a.step .northEast).y ∨ (a.step .southEast).y ≤ b.y := by
    simp only [step]; split <;> omega
  have west : b.y ≤ (a.step .northWest).y ∨ (a.step .southWest).y ≤ b.y := by
    simp only [step]; split <;> omega
  rcases Int.lt_trichotomy a.x b.x with hx | hx | hx
  · exact east.elim (fun hy => ⟨_, .northEast hx hy⟩) fun hy => ⟨_, .southEast hx hy⟩
  · have hy : a.y ≠ b.y := fun hy => h (Cell.ext hx hy)
    rcases Int.lt_or_gt_of_ne hy with hy | hy
    · exact ⟨_, .south hx hy⟩
    · exact ⟨_, .north hx (Int.le_sub_one_of_lt hy)⟩
  · exact west.elim (fun hy => ⟨_, .northWest hx hy⟩) fun hy => ⟨_, .southWest hx hy⟩

namespace Toward

variable {a b : Cell} {d : Direction}

theorem columns (h : Toward a b d) :
    d.east.natAbs = min 1 (a.x - b.x).natAbs ∧
      ((a.step d).x - b.x).natAbs + d.east.natAbs = (a.x - b.x).natAbs := by
  rw [x_step]
  cases h <;> simp only [Direction.east] <;> omega

/-- A step into the next column changes the depth; where that was right already, it is off by
a half tile after it. -/
theorem halfTiles (h : Toward a b d) :
    ((a.step d).depth - b.depth).natAbs + d.down.natAbs = (a.depth - b.depth).natAbs ∨
      (a.depth - b.depth).natAbs = 0 ∧ ((a.step d).depth - b.depth).natAbs = 1 ∧
        d.east.natAbs = 1 := by
  cases h with
  | north column row | south column row =>
    -- Within a column depths differ by whole tiles.
    have heven := even_apart a b
    have hd := depth_le_of_row row
    simp only [depth_step, Direction.down] at hd ⊢
    omega
  | northEast column row | northWest column row | southEast column row | southWest column row =>
    have hd := depth_le_of_row row
    simp only [depth_step, Direction.down, Direction.east] at hd ⊢
    omega

/-- A step towards a cell brings it one nearer. -/
theorem distance_step (h : Toward a b d) : distance (a.step d) b + 1 = distance a b := by
  have heven := even_apart a b
  have hs := d.natAbs_east_add_down
  have hx := h.columns
  rw [distance_eq, distance_eq]
  rcases h.halfTiles with hd | ⟨hlevel, hoff, heast⟩
  · omega
  · -- The columns differ by an even number, so the half tile that is lost costs no step.
    have hcolumns : 2 ≤ (a.x - b.x).natAbs := by omega
    omega

end Toward

/-- In the rectangle that two cells span. -/
structure Between (a b c : Cell) : Prop where
  column : min a.x b.x ≤ c.x ∧ c.x ≤ max a.x b.x
  row : min a.y b.y ≤ c.y ∧ c.y ≤ max a.y b.y

theorem step_row (c : Cell) (d : Direction) :
    c.y - 1 ≤ (c.step d).y ∧ (c.step d).y ≤ c.y ∧ d.down < 0 ∨
      c.y ≤ (c.step d).y ∧ (c.step d).y ≤ c.y + 1 ∧ 0 < d.down := by
  cases d <;> simp only [step, Direction.down] <;> grind

theorem Toward.between {a b : Cell} {d : Direction} (h : Toward a b d) :
    Between a b (a.step d) := by
  have hy := step_row a d
  constructor
  · rw [x_step]
    cases h <;> simp only [Direction.east] <;> omega
  · cases h <;> simp only [Direction.down] at hy <;> omega

/-- Induction along a shortest walk: what holds at its end, and before every step towards
that end if it holds after it, holds everywhere. -/
@[elab_as_elim]
theorem toward_induction (b : Cell) {motive : Cell → Prop} (arrived : motive b)
    (step : ∀ a d, Toward a b d → motive (a.step d) → motive a) (a : Cell) : motive a := by
  induction hn : distance a b using Nat.strongRecOn generalizing a with
  | ind n ih =>
    by_cases h : a = b
    · exact h ▸ arrived
    · obtain ⟨d, hd⟩ := exists_toward h
      have hnear := hd.distance_step
      exact step a d hd (ih _ (by omega) (a.step d) rfl)

theorem exists_walk (a b : Cell) :
    ∃ ds : List Direction, ds.length = distance a b ∧ a.follow ds = b := by
  induction a using toward_induction b with
  | arrived => exact ⟨[], (distance_self b).symm, rfl⟩
  | step a d hd ih =>
    obtain ⟨ds, hlen, hend⟩ := ih
    exact ⟨d :: ds, by rw [List.length_cons, hlen, hd.distance_step], hend⟩

/-- The distance is the length of a shortest walk. -/
theorem isLeast_distance (a b : Cell) :
    IsLeast {n | ∃ ds : List Direction, ds.length = n ∧ a.follow ds = b} (distance a b) := by
  refine ⟨exists_walk a b, ?_⟩
  rintro n ⟨ds, rfl, rfl⟩
  exact distance_le_length a ds

theorem distance_triangle (a b c : Cell) : distance a c ≤ distance a b + distance b c := by
  obtain ⟨ds, hlen, rfl⟩ := exists_walk b c
  rw [← hlen]
  exact distance_follow_le a b ds

/-- A cell that differs in one coordinate, by one, is a neighbour. -/
theorem exists_step_of_coordinate {c c' : Cell}
    (h : (c'.x - c.x).natAbs + (c'.y - c.y).natAbs ≤ 1) :
    ∃ es : List Direction, es.length ≤ 1 ∧ c.follow es = c' := by
  obtain ⟨x, y⟩ := c
  obtain ⟨x', y'⟩ := c'
  have hcases : x' = x ∧ y' = y ∨ x' = x ∧ y' = y - 1 ∨ x' = x ∧ y' = y + 1 ∨
      x' = x + 1 ∧ y' = y ∨ x' = x - 1 ∧ y' = y := by
    simp only at h
    omega
  rcases hcases with ⟨rfl, rfl⟩ | ⟨rfl, rfl⟩ | ⟨rfl, rfl⟩ | ⟨rfl, rfl⟩ | ⟨rfl, rfl⟩
  · exact ⟨[], Nat.zero_le 1, rfl⟩
  · exact ⟨[.north], Nat.le_refl 1, rfl⟩
  · exact ⟨[.south], Nat.le_refl 1, rfl⟩
  · cases hx : inEvenColumn ⟨x, y'⟩
    · exact ⟨[.northEast], Nat.le_refl 1, by simp [follow, step, hx]⟩
    · exact ⟨[.southEast], Nat.le_refl 1, by simp [follow, step, hx]⟩
  · cases hx : inEvenColumn ⟨x, y'⟩
    · exact ⟨[.northWest], Nat.le_refl 1, by simp [follow, step, hx]⟩
    · exact ⟨[.southWest], Nat.le_refl 1, by simp [follow, step, hx]⟩

end Cell

namespace Location

/-! ### Walks of locations -/

theorem fits_of_between {a b : Location} {c : Cell} (h : Cell.Between a.cell b.cell c) :
    Word.Fits c.x ∧ Word.Fits c.y :=
  ⟨(Word.fits_toInt a.x).between (Word.fits_toInt b.x) h.column,
    (Word.fits_toInt a.y).between (Word.fits_toInt b.y) h.row⟩

/-- A shortest walk between two locations leaves the range nowhere, since it stays in the
rectangle they span. -/
theorem exists_walk (a b : Location) :
    ∃ ds : List Direction, ds.length = a.cell.distance b.cell ∧ ds.foldlM step? a = some b := by
  induction h : a.cell using Cell.toward_induction b.cell generalizing a with
  | arrived => exact ⟨[], (Cell.distance_self _).symm, congrArg some (eq_of_cell h)⟩
  | step c d hd ih =>
    subst h
    obtain ⟨hx, hy⟩ := fits_of_between hd.between
    obtain ⟨l, hl⟩ := exists_ofCell? hx hy
    obtain ⟨ds, hlen, hend⟩ := ih l (cell_of_ofCell? hl)
    refine ⟨d :: ds, by rw [List.length_cons, hlen, hd.distance_step], ?_⟩
    rw [List.foldlM_cons, step?, hl]
    exact hend

/-! ### Steps kept in the range -/

/-- A step kept in the range is a step of the grid, though perhaps in another direction, or
none: a coordinate at the end of the range stays, and moving the other one alone leads to a
neighbour. -/
theorem step_cell (l : Location) (d : Direction) :
    ∃ es : List Direction, es.length ≤ 1 ∧ l.cell.follow es = (l.step d).cell := by
  have hcolumn : ((l.cell.step d).x - l.cell.x).natAbs ≤ 1 := by
    have := d.natAbs_east_le
    rw [Cell.x_step]
    omega
  have hrow : ((l.cell.step d).y - l.cell.y).natAbs ≤ 1 := by
    have := l.cell.step_row d
    omega
  have hx : (l.step d).cell.x = (l.cell.step d).x ∨ (l.step d).cell.x = l.cell.x :=
    Word.toInt_clamp_or (Word.fits_toInt l.x) hcolumn
  have hy : (l.step d).cell.y = (l.cell.step d).y ∨ (l.step d).cell.y = l.cell.y :=
    Word.toInt_clamp_or (Word.fits_toInt l.y) hrow
  by_cases h : (l.step d).cell = l.cell.step d
  · exact ⟨[d], Nat.le_refl 1, h.symm⟩
  · have hne : ¬ ((l.step d).cell.x = (l.cell.step d).x ∧ (l.step d).cell.y = (l.cell.step d).y) :=
      fun ⟨hx, hy⟩ => h (Cell.ext hx hy)
    exact Cell.exists_step_of_coordinate (by omega)

theorem foldl_step_cell (l : Location) (ds : List Direction) :
    ∃ es : List Direction, es.length ≤ ds.length ∧
      l.cell.follow es = (ds.foldl step l).cell := by
  induction ds generalizing l with
  | nil => exact ⟨[], Nat.le_refl 0, rfl⟩
  | cons d ds ih =>
    obtain ⟨first, hfirst, hstep⟩ := l.step_cell d
    obtain ⟨rest, hrest, hend⟩ := ih (l.step d)
    refine ⟨first ++ rest, ?_, ?_⟩
    · rw [List.length_append, List.length_cons]
      omega
    · rw [Cell.follow_append, hstep, hend, List.foldl_cons]

/-! ### The distance of locations -/

theorem map_distance? (a b : Location) :
    (a.distance? b).map Int64.toInt =
      if (a.cell.distance b.cell : Int) ≤ Word.greatest then
        some (a.cell.distance b.cell : Int)
      else none := by
  rw [distance?, Word.narrow?]
  split
  · next h => rw [if_pos (Word.fits_natCast.1 h), Option.map_some, Word.toInt_ofInt h]
  · next h => rw [if_neg (mt Word.fits_natCast.2 h), Option.map_none]

/-- A distance that does not fit is replaced by the greatest number. -/
theorem toInt_distance (a b : Location) :
    (a.distance b).toInt = min (a.cell.distance b.cell : Int) Word.greatest := by
  rw [distance, distance?, Word.narrow?]
  split
  · next h =>
    rw [Option.getD_some, Word.toInt_ofInt h, Int.min_eq_left h.2]
  · next h =>
    have hgreat : Word.greatest < a.cell.distance b.cell := Int.not_le.1 (mt Word.fits_natCast.2 h)
    rw [Option.getD_none, Word.toInt_ofInt (by decide), Int.min_eq_right (Int.le_of_lt hgreat)]

theorem toInt_distance_le (a b : Location) :
    (a.distance b).toInt ≤ a.cell.distance b.cell := by
  rw [toInt_distance]
  exact Int.min_le_left _ _

/-- **The distance is that of the grid**, walked without bounds; a number that does not fit is
refused. Some shortest walk leaves the range nowhere, and steps that are kept in the range
lead no further away than there are steps. -/
theorem distance_shortest (a b : Location) :
    ∃ D : Nat,
      IsLeast {n | ∃ ds : List Direction, ds.length = n ∧ a.cell.follow ds = b.cell} D ∧
      (a.distance? b).map Int64.toInt =
        (if (D : Int) ≤ Word.greatest then some (D : Int) else none) ∧
      (∃ ds : List Direction, ds.length = D ∧ ds.foldlM step? a = some b) ∧
      ∀ ds : List Direction, (a.distance (ds.foldl step a)).toInt ≤ ds.length := by
  refine ⟨_, Cell.isLeast_distance a.cell b.cell, a.map_distance? b, a.exists_walk b, ?_⟩
  intro ds
  obtain ⟨es, hlen, hend⟩ := a.foldl_step_cell ds
  calc (a.distance (ds.foldl step a)).toInt
      ≤ a.cell.distance (ds.foldl step a).cell := toInt_distance_le _ _
    _ = a.cell.distance (a.cell.follow es) := by rw [hend]
    _ ≤ es.length := Int.ofNat_le.2 (Cell.distance_le_length _ _)
    _ ≤ ds.length := Int.ofNat_le.2 hlen

/-- Columns of the whole range apart. -/
example : distance? ⟨Int64.minValue, 0⟩ ⟨Int64.maxValue, 0⟩ = none := by decide

end Location

end Formulary
