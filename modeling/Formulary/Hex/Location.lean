import Formulary.Hex.Cell
import Formulary.Word

/-! Tiles with 64-bit coordinates.

A location is a cell whose coordinates fit. All geometry is that of the cells; a result
that does not fit is refused (`step?`, `distance?`) or replaced by the nearest that does
(`step`, `distance`). -/
namespace Formulary

structure Location where
  x : Int64
  y : Int64
  deriving DecidableEq, Repr

namespace Location

/-- The location that an unset one stands for. -/
def origin : Location := ⟨0, 0⟩

def cell (l : Location) : Cell :=
  ⟨l.x.toInt, l.y.toInt⟩

/-- The location of a cell, if its coordinates fit. -/
def ofCell? (c : Cell) : Option Location := do
  let x ← Word.narrow? c.x
  let y ← Word.narrow? c.y
  pure ⟨x, y⟩

/-- The location of a cell, each coordinate kept in the range. -/
def nearest (c : Cell) : Location :=
  ⟨Word.clamp c.x, Word.clamp c.y⟩

theorem cell_of_ofCell? {c : Cell} {l : Location} (h : ofCell? c = some l) : l.cell = c := by
  simp only [ofCell?, Option.pure_def, Option.bind_eq_bind, Option.bind_eq_some_iff,
    Option.some.injEq] at h
  obtain ⟨x, hx, y, hy, rfl⟩ := h
  rw [cell, Word.toInt_of_narrow? hx, Word.toInt_of_narrow? hy]

@[simp] theorem ofCell?_cell (l : Location) : ofCell? l.cell = some l := by
  simp [ofCell?, cell]

theorem eq_of_cell {a b : Location} (h : a.cell = b.cell) : a = b := by
  have := ofCell?_cell b
  rw [← h, ofCell?_cell] at this
  exact Option.some.inj this

theorem exists_ofCell? {c : Cell} (hx : Word.Fits c.x) (hy : Word.Fits c.y) :
    ∃ l, ofCell? c = some l :=
  ⟨⟨Int64.ofInt c.x, Int64.ofInt c.y⟩, by simp [ofCell?, Word.narrow?, hx, hy]⟩

/-- On the map, coordinates are not negative. -/
def onMap (l : Location) : Bool :=
  0 ≤ l.x.toInt && 0 ≤ l.y.toInt

def text (l : Location) : String :=
  s!"({l.x.toInt}, {l.y.toInt})"

/-- By column, then by row. -/
def order (a b : Location) : Ordering :=
  (compare a.x.toInt b.x.toInt).then (compare a.y.toInt b.y.toInt)

/-! ### Steps -/

/-- The neighbour in a direction; a coordinate that would leave the range stays at its
end. -/
def step (l : Location) (d : Direction) : Location :=
  nearest (l.cell.step d)

/-- The neighbour in a direction, if its coordinates fit. -/
def step? (l : Location) (d : Direction) : Option Location :=
  ofCell? (l.cell.step d)

/-- The six neighbours, clockwise from north. -/
def neighbours (l : Location) : List Location :=
  Direction.all.map l.step

/-- The locations passed on a walk, the last one last. -/
def walk (l : Location) : List Direction → List Location
  | [] => []
  | d :: ds => l.step d :: (l.step d).walk ds

/-! ### Distance -/

def distance? (a b : Location) : Option Int64 :=
  Word.narrow? (a.cell.distance b.cell)

/-- The distance, or the greatest number where it does not fit. -/
def distance (a b : Location) : Int64 :=
  (distance? a b).getD (Int64.ofInt Word.greatest)

def adjacent (a b : Location) : Bool :=
  distance a b = 1

/-! ### Rings -/

/-- The location after `n` steps in one direction. -/
def march (l : Location) (d : Direction) : Nat → Location
  | 0 => l
  | n + 1 => (l.step d).march d n

/-- The `n` locations of one side of a ring, the corner it starts from first. -/
def side (l : Location) (d : Direction) : Nat → List Location
  | 0 => []
  | n + 1 => l :: (l.step d).side d n

/-- The sides of a ring, one for each direction, each starting where the one before ends. -/
def sides (l : Location) (n : Nat) : List Direction → List Location
  | [] => []
  | d :: ds => l.side d n ++ (l.march d n).sides n ds

/-- The locations `radius` steps away. The walk around starts `radius` steps to the
south-west and goes on clockwise. -/
def ring (center : Location) (radius : Nat) : List Location :=
  if radius = 0 then [center]
  else (center.march .southWest radius).sides radius Direction.all

/-- The locations at most `radius` steps away, the innermost ring first. -/
def disk (center : Location) (radius : Nat) : List Location :=
  (List.range (radius + 1)).flatMap center.ring

theorem length_side (l : Location) (d : Direction) (n : Nat) : (l.side d n).length = n := by
  induction n generalizing l with
  | zero => rfl
  | succ n ih => simp [side, ih]

theorem length_sides (l : Location) (n : Nat) (ds : List Direction) :
    (l.sides n ds).length = ds.length * n := by
  induction ds generalizing l with
  | nil => simp [sides]
  | cons d ds ih => simp [sides, length_side, ih, Nat.succ_mul, Nat.add_comm]

/-- A ring has six locations for each step of its radius, repetitions counted. -/
theorem length_ring (center : Location) {radius : Nat} (h : radius ≠ 0) :
    (center.ring radius).length = 6 * radius := by
  simp [ring, h, length_sides, Direction.all]

end Location

end Formulary
