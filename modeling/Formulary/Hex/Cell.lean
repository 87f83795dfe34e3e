/-! The hexagonal map without bounds.

The map has columns of hexes; every odd column sits half a tile lower than its even
neighbours. Going north-east from an even column therefore also goes one row up, and
from an odd column stays in the row. A cell is given by its column and its row, which
may be any integers. -/
namespace Formulary

/-- The six neighbours of a hex. -/
inductive Direction where
  | north
  | northEast
  | southEast
  | south
  | southWest
  | northWest
  deriving DecidableEq, Repr

/-- Clockwise from north. -/
def Direction.all : List Direction :=
  [.north, .northEast, .southEast, .south, .southWest, .northWest]

theorem Direction.mem_all (d : Direction) : d ∈ all := by
  cases d <;> decide

@[ext]
structure Cell where
  x : Int
  y : Int
  deriving DecidableEq, Repr

namespace Cell

def inEvenColumn (c : Cell) : Bool :=
  c.x % 2 = 0

/-- The neighbour in a direction. -/
def step (c : Cell) : Direction → Cell
  | .north => ⟨c.x, c.y - 1⟩
  | .northEast => ⟨c.x + 1, if c.inEvenColumn then c.y - 1 else c.y⟩
  | .southEast => ⟨c.x + 1, if c.inEvenColumn then c.y else c.y + 1⟩
  | .south => ⟨c.x, c.y + 1⟩
  | .southWest => ⟨c.x - 1, if c.inEvenColumn then c.y else c.y + 1⟩
  | .northWest => ⟨c.x - 1, if c.inEvenColumn then c.y - 1 else c.y⟩

/-- The extra step between columns of different parity, from the lower half-row to the
higher one. -/
def penalty (a b : Cell) : Nat :=
  if (a.inEvenColumn && !b.inEvenColumn && a.y < b.y) ||
      (b.inEvenColumn && !a.inEvenColumn && b.y < a.y) then 1
  else 0

/-- The number of steps between two cells. Every second column that is crossed changes the
row for free. -/
def distance (a b : Cell) : Nat :=
  let columns := (a.x - b.x).natAbs
  let rows := (a.y - b.y).natAbs
  max columns (rows + penalty a b + columns / 2)

theorem distance_self (c : Cell) : distance c c = 0 := by
  cases h : c.inEvenColumn <;> simp [distance, penalty, h]

theorem distance_comm (a b : Cell) : distance a b = distance b a := by
  have hx : (a.x - b.x).natAbs = (b.x - a.x).natAbs := by omega
  have hy : (a.y - b.y).natAbs = (b.y - a.y).natAbs := by omega
  simp only [distance, penalty, hx, hy, Bool.or_comm]

/-- A step changes the distance from the start by one. -/
theorem distance_step (c : Cell) (d : Direction) : distance c (c.step d) = 1 := by
  cases d <;> simp only [distance, penalty, step, inEvenColumn] <;>
    by_cases h : c.x % 2 = 0 <;> grind

end Cell

end Formulary
