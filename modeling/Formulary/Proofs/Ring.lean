import Mathlib.Data.List.Nodup
import Formulary.Proofs.Distance

/-! A ring is a sphere.

The walk around a ring takes six straight sides, and neither looks where it is nor how far
from the center. In columns and half tiles a side is a segment: `Cell.rim` is the cell after
some steps on the side in some direction. Of these cells

* all are exactly the radius away from the center (`distance_rim`),
* every cell that far away is one (`exists_rim`), and in one way only (`rim_injective`),
* each side ends where the next one starts (`rim_end`).

A center that has the radius as room on all four sides (`HasRoom`) has every cell within
the radius in the range, so that the walk of locations is the walk of cells. -/
namespace Formulary

namespace Direction

/-- Where the side of a ring that is walked in this direction starts, seen from the
center. -/
def corner : Direction → Direction
  | north => southWest
  | northEast => northWest
  | southEast => north
  | south => northEast
  | southWest => southEast
  | northWest => south

/-- The direction of the next side. -/
def turn : Direction → Direction
  | north => northEast
  | northEast => southEast
  | southEast => south
  | south => southWest
  | southWest => northWest
  | northWest => north

end Direction

namespace Cell

theorem eq_of_depth {a b : Cell} (hx : a.x = b.x) (hd : a.depth = b.depth) : a = b := by
  refine Cell.ext hx ?_
  simp only [depth, hx] at hd
  omega

theorem natAbs_le_distance (a b : Cell) :
    (a.x - b.x).natAbs ≤ distance a b ∧ (a.y - b.y).natAbs ≤ distance a b := by
  simp only [distance]
  omega

theorem distance_eq_zero_iff {a b : Cell} : distance a b = 0 ↔ a = b := by
  constructor
  · intro h
    obtain ⟨ds, hlen, hend⟩ := exists_walk a b
    obtain rfl := List.eq_nil_of_length_eq_zero (hlen.trans h)
    exact hend
  · rintro rfl
    exact distance_self a

/-! ### Straight walks -/

/-- The cell after `n` steps in one direction. -/
def go (c : Cell) (d : Direction) (n : Nat) : Cell :=
  c.follow (List.replicate n d)

theorem go_succ (c : Cell) (d : Direction) (n : Nat) : c.go d (n + 1) = (c.step d).go d n :=
  rfl

theorem x_go (c : Cell) (d : Direction) (n : Nat) : (c.go d n).x = c.x + n * d.east := by
  induction n generalizing c with
  | zero => simp [go, follow]
  | succ n ih =>
    rw [go_succ, ih, x_step, Int.natCast_succ, Int.add_mul]
    omega

theorem depth_go (c : Cell) (d : Direction) (n : Nat) :
    (c.go d n).depth = c.depth + n * d.down := by
  induction n generalizing c with
  | zero => simp [go, follow]
  | succ n ih =>
    rw [go_succ, ih, depth_step, Int.natCast_succ, Int.add_mul]
    omega

theorem distance_go (c : Cell) (d : Direction) (n : Nat) : distance c (c.go d n) = n := by
  rw [distance_eq, x_go, depth_go]
  cases d <;> simp only [Direction.east, Direction.down] <;> omega

/-! ### The rim -/

/-- The cell after `n` steps on the side that is walked in direction `d`. -/
def rim (c : Cell) (radius : Nat) (d : Direction) (n : Nat) : Cell :=
  (c.go d.corner radius).go d n

section
variable (c : Cell) {radius : Nat}

theorem x_rim (d : Direction) (n : Nat) :
    (c.rim radius d n).x = c.x + radius * d.corner.east + n * d.east := by
  rw [rim, x_go, x_go]

theorem depth_rim (d : Direction) (n : Nat) :
    (c.rim radius d n).depth = c.depth + radius * d.corner.down + n * d.down := by
  rw [rim, depth_go, depth_go]

theorem distance_rim (d : Direction) {n : Nat} (h : n ≤ radius) :
    distance c (c.rim radius d n) = radius := by
  rw [distance_eq, x_rim, depth_rim]
  cases d <;> simp only [Direction.corner, Direction.east, Direction.down] <;> omega

/-- A side ends where the next one starts. -/
theorem rim_end (d : Direction) : c.rim radius d radius = c.go d.turn.corner radius := by
  refine eq_of_depth ?_ ?_
  · rw [x_rim, x_go]
    cases d <;> simp only [Direction.corner, Direction.turn, Direction.east] <;> omega
  · rw [depth_rim, depth_go]
    cases d <;> simp only [Direction.corner, Direction.turn, Direction.down] <;> omega

/-- The direction in which the side of a cell of the rim is walked. The outermost columns are
the sides to the north and to the south; the other four are told apart by the quarter of the
map they lie in. -/
def sideOf (c : Cell) (radius : Nat) (k : Cell) : Direction :=
  let east := k.x - c.x
  let down := k.depth - c.depth
  if east = -radius ∧ -radius < down then .north
  else if east = radius ∧ down < radius then .south
  else if down < 0 then
    if east < 0 then .northEast else .southEast
  else
    if 0 < east then .southWest else .northWest

theorem sideOf_rim (d : Direction) {n : Nat} (h : n < radius) :
    c.sideOf radius (c.rim radius d n) = d := by
  have hx : (c.rim radius d n).x - c.x = radius * d.corner.east + n * d.east := by
    rw [x_rim]; omega
  have hdepth : (c.rim radius d n).depth - c.depth = radius * d.corner.down + n * d.down := by
    rw [depth_rim]; omega
  rw [sideOf, hx, hdepth]
  cases d <;> simp only [Direction.corner, Direction.east, Direction.down] <;> grind

theorem rim_injective {d d' : Direction} {n n' : Nat} (hn : n < radius) (hn' : n' < radius)
    (h : c.rim radius d n = c.rim radius d' n') : d = d' ∧ n = n' := by
  obtain rfl : d = d' := by rw [← sideOf_rim c d hn, h, sideOf_rim c d' hn']
  have hdepth := congrArg Cell.depth h
  rw [depth_rim, depth_rim] at hdepth
  refine ⟨rfl, ?_⟩
  cases d <;> simp only [Direction.down] at hdepth <;> omega

theorem exists_rim (hr : radius ≠ 0) {k : Cell} (h : distance c k = radius) :
    ∃ d, ∃ n < radius, k = c.rim radius d n := by
  obtain ⟨x, hx⟩ : ∃ x, k.x = c.x + x := ⟨k.x - c.x, by omega⟩
  obtain ⟨z, hz⟩ : ∃ z, k.depth = c.depth + z := ⟨k.depth - c.depth, by omega⟩
  have hreach : x.natAbs = radius ∧ z.natAbs ≤ radius ∧ (x.natAbs + z.natAbs) % 2 = 0 ∨
      x.natAbs < radius ∧ x.natAbs + z.natAbs = 2 * radius := by
    have heven := even_apart c k
    have hxabs : (c.x - k.x).natAbs = x.natAbs := by omega
    have hzabs : (c.depth - k.depth).natAbs = z.natAbs := by omega
    rw [hxabs, hzabs] at heven
    rw [distance_eq, hxabs, hzabs] at h
    generalize x.natAbs = columns at *
    generalize z.natAbs = halfTiles at *
    omega
  have side (d : Direction) (n : Nat) (hside : n < radius ∧
      x = radius * d.corner.east + n * d.east ∧ z = radius * d.corner.down + n * d.down) :
      ∃ d, ∃ n < radius, k = c.rim radius d n := by
    refine ⟨d, n, hside.1, eq_of_depth ?_ ?_⟩
    · rw [x_rim, hx, hside.2.1, Int.add_assoc]
    · rw [depth_rim, hz, hside.2.2, Int.add_assoc]
  by_cases hnorth : x = -radius ∧ -radius < z
  · exact side .north ((radius - z) / 2).toNat
      (by simp only [Direction.corner, Direction.east, Direction.down]; omega)
  by_cases hsouth : x = radius ∧ z < radius
  · exact side .south ((radius + z) / 2).toNat
      (by simp only [Direction.corner, Direction.east, Direction.down]; omega)
  by_cases hup : z < 0
  · by_cases hwest : x < 0
    · exact side .northEast (radius + x).toNat
        (by simp only [Direction.corner, Direction.east, Direction.down]; omega)
    · exact side .southEast x.toNat
        (by simp only [Direction.corner, Direction.east, Direction.down]; omega)
  · by_cases heast : 0 < x
    · exact side .southWest (radius - x).toNat
        (by simp only [Direction.corner, Direction.east, Direction.down]; omega)
    · exact side .northWest (-x).toNat
        (by simp only [Direction.corner, Direction.east, Direction.down]; omega)

end

end Cell

namespace Location

/-! ### Room for the walk -/

/-- The center is at least the radius away from each end of the range. -/
structure HasRoom (center : Location) (radius : Nat) : Prop where
  west : Word.Fits (center.x.toInt - radius)
  east : Word.Fits (center.x.toInt + radius)
  north : Word.Fits (center.y.toInt - radius)
  south : Word.Fits (center.y.toInt + radius)

instance (center : Location) (radius : Nat) : Decidable (HasRoom center radius) :=
  decidable_of_iff (Word.Fits (center.x.toInt - radius) ∧ Word.Fits (center.x.toInt + radius) ∧
      Word.Fits (center.y.toInt - radius) ∧ Word.Fits (center.y.toInt + radius))
    ⟨fun ⟨w, e, n, s⟩ => ⟨w, e, n, s⟩, fun ⟨w, e, n, s⟩ => ⟨w, e, n, s⟩⟩

variable {center : Location} {radius : Nat}

theorem HasRoom.mono (h : HasRoom center radius) {n : Nat} (hn : n ≤ radius) :
    HasRoom center n := by
  obtain ⟨west, east, north, south⟩ := h
  constructor <;> simp only [Word.Fits] at * <;> omega

theorem HasRoom.fits (h : HasRoom center radius) {k : Cell}
    (hk : center.cell.distance k ≤ radius) : Word.Fits k.x ∧ Word.Fits k.y := by
  obtain ⟨west, east, north, south⟩ := h
  have hreach := center.cell.natAbs_le_distance k
  simp only [cell] at hreach hk
  simp only [Word.Fits] at *
  omega

theorem step_cell_of_fits {l : Location} {d : Direction}
    (h : Word.Fits (l.cell.step d).x ∧ Word.Fits (l.cell.step d).y) :
    (l.step d).cell = l.cell.step d := by
  simp only [step, nearest, cell, Word.toInt_clamp] at h ⊢
  simp only [Word.Fits] at h
  refine Cell.ext ?_ ?_ <;> simp only <;> omega

/-- A straight walk that stays in the range is one of cells. -/
theorem march_cell {l : Location} {d : Direction} {n : Nat}
    (h : ∀ k ≤ n, Word.Fits (l.cell.go d k).x ∧ Word.Fits (l.cell.go d k).y) :
    (l.march d n).cell = l.cell.go d n := by
  induction n generalizing l with
  | zero => rfl
  | succ n ih =>
    have hstep : (l.step d).cell = l.cell.step d := step_cell_of_fits (h 1 (by omega))
    rw [march, Cell.go_succ, ← hstep]
    refine ih fun k hk => ?_
    rw [hstep, ← Cell.go_succ]
    exact h (k + 1) (by omega)

theorem side_eq_map (l : Location) (d : Direction) (n : Nat) :
    l.side d n = (List.range n).map (l.march d) := by
  induction n generalizing l with
  | zero => rfl
  | succ n ih =>
    rw [side, ih, List.range_succ_eq_map, List.map_cons, List.map_map]
    rfl

/-! ### The ring -/

/-- The location after `n` steps on the side that is walked in direction `d`. -/
def rim (center : Location) (radius : Nat) (d : Direction) (n : Nat) : Location :=
  (center.march d.corner radius).march d n

theorem HasRoom.march_cell (h : HasRoom center radius) (d : Direction) :
    (center.march d radius).cell = center.cell.go d radius :=
  Location.march_cell fun k hk => h.fits (by rw [Cell.distance_go]; exact hk)

theorem HasRoom.rim_cell (h : HasRoom center radius) (d : Direction) {n : Nat}
    (hn : n ≤ radius) : (center.rim radius d n).cell = center.cell.rim radius d n := by
  rw [rim, Location.march_cell, h.march_cell]
  · rfl
  · intro k hk
    rw [h.march_cell]
    exact h.fits (Nat.le_of_eq (Cell.distance_rim _ d (Nat.le_trans hk hn)))

theorem HasRoom.rim_end (h : HasRoom center radius) (d : Direction) :
    center.rim radius d radius = center.march d.turn.corner radius := by
  refine eq_of_cell ?_
  rw [h.rim_cell d (Nat.le_refl _), Cell.rim_end, h.march_cell]

/-- Sides one after the other, each in the direction next to the one before. -/
theorem HasRoom.sides_eq (h : HasRoom center radius) {d : Direction} {ds : List Direction}
    (hds : (d :: ds).IsChain fun d e => e = d.turn) :
    (center.march d.corner radius).sides radius (d :: ds) =
      (d :: ds).flatMap fun d => (List.range radius).map (center.rim radius d) := by
  have hside : (center.march d.corner radius).side d radius =
      (List.range radius).map (center.rim radius d) := side_eq_map _ _ _
  induction ds generalizing d with
  | nil => rw [sides, sides, hside, List.flatMap_singleton, List.append_nil]
  | cons e ds ih =>
    obtain ⟨rfl, hds⟩ := List.isChain_cons_cons.1 hds
    have hend : (center.march d.corner radius).march d radius =
        center.march d.turn.corner radius := h.rim_end d
    rw [sides, hside, hend, ih hds (side_eq_map _ _ _), List.flatMap_cons (x := d)]

theorem HasRoom.ring_eq (h : HasRoom center radius) (hr : radius ≠ 0) :
    center.ring radius =
      Direction.all.flatMap fun d => (List.range radius).map (center.rim radius d) := by
  have hturns : Direction.all.IsChain fun d e => e = d.turn := by decide
  rw [ring, if_neg hr]
  exact h.sides_eq hturns

theorem HasRoom.mem_ring (h : HasRoom center radius) (l : Location) :
    l ∈ center.ring radius ↔ center.cell.distance l.cell = radius := by
  by_cases hr : radius = 0
  · subst hr
    rw [ring, if_pos rfl, List.mem_singleton, Cell.distance_eq_zero_iff]
    exact ⟨fun hl => hl ▸ rfl, fun hl => eq_of_cell hl.symm⟩
  · rw [h.ring_eq hr]
    simp only [List.mem_flatMap, List.mem_map, List.mem_range]
    constructor
    · rintro ⟨d, -, n, hn, rfl⟩
      have hle := Nat.le_of_lt hn
      rw [h.rim_cell d hle, Cell.distance_rim _ d hle]
    · intro hl
      obtain ⟨d, n, hn, hcell⟩ := Cell.exists_rim _ hr hl
      have hrim := h.rim_cell d (Nat.le_of_lt hn)
      exact ⟨d, d.mem_all, n, hn, eq_of_cell (hrim.trans hcell.symm)⟩

theorem HasRoom.rim_injective (h : HasRoom center radius) {d d' : Direction} {n n' : Nat}
    (hn : n < radius) (hn' : n' < radius)
    (heq : center.rim radius d n = center.rim radius d' n') : d = d' ∧ n = n' := by
  refine Cell.rim_injective center.cell hn hn' ?_
  rw [← h.rim_cell d (Nat.le_of_lt hn), ← h.rim_cell d' (Nat.le_of_lt hn'), heq]

theorem HasRoom.nodup_ring (h : HasRoom center radius) : (center.ring radius).Nodup := by
  by_cases hr : radius = 0
  · rw [ring, if_pos hr]
    exact List.nodup_singleton center
  · have hall : Direction.all.Nodup := by decide
    rw [h.ring_eq hr]
    refine List.nodup_flatMap.2 ⟨fun d _ => ?_, hall.imp fun {d d'} hne => ?_⟩
    · refine List.Nodup.map_on (fun n hn n' hn' heq => ?_) List.nodup_range
      exact (h.rim_injective (List.mem_range.1 hn) (List.mem_range.1 hn') heq).2
    · intro l hl hl'
      obtain ⟨n, hn, rfl⟩ := List.mem_map.1 hl
      obtain ⟨n', hn', heq⟩ := List.mem_map.1 hl'
      exact hne (h.rim_injective (List.mem_range.1 hn) (List.mem_range.1 hn') heq.symm).1

/-! ### The disk -/

theorem HasRoom.mem_disk (h : HasRoom center radius) (l : Location) :
    l ∈ center.disk radius ↔ center.cell.distance l.cell ≤ radius := by
  simp only [disk, List.mem_flatMap, List.mem_range, Nat.lt_succ_iff]
  constructor
  · rintro ⟨n, hn, hl⟩
    rwa [((h.mono hn).mem_ring l).1 hl]
  · exact fun hl => ⟨_, hl, ((h.mono hl).mem_ring l).2 rfl⟩

/-- What holds within each ring, and from each ring to those around it, holds along the
disk. -/
theorem HasRoom.pairwise_disk (h : HasRoom center radius) {R : Location → Location → Prop}
    (hring : ∀ n ≤ radius, (center.ring n).Pairwise R)
    (houter : ∀ a b : Location,
      center.cell.distance a.cell < center.cell.distance b.cell → R a b) :
    (center.disk radius).Pairwise R := by
  refine List.pairwise_flatMap.2 ⟨fun n hn => ?_, ?_⟩
  · exact hring n (Nat.lt_succ_iff.1 (List.mem_range.1 hn))
  refine List.pairwise_lt_range.imp_of_mem fun {m n} hm hn hlt a ha b hb => houter a b ?_
  have hm := Nat.lt_succ_iff.1 (List.mem_range.1 hm)
  have hn := Nat.lt_succ_iff.1 (List.mem_range.1 hn)
  rwa [((h.mono hm).mem_ring a).1 ha, ((h.mono hn).mem_ring b).1 hb]

theorem HasRoom.nodup_disk (h : HasRoom center radius) : (center.disk radius).Nodup := by
  refine h.pairwise_disk (fun n hn => (h.mono hn).nodup_ring) fun a b hlt heq => ?_
  rw [heq] at hlt
  exact Nat.lt_irrefl _ hlt

theorem HasRoom.sorted_disk (h : HasRoom center radius) :
    (center.disk radius).Pairwise fun a b =>
      center.cell.distance a.cell ≤ center.cell.distance b.cell := by
  refine h.pairwise_disk (fun n hn => ?_) fun a b hlt => Nat.le_of_lt hlt
  refine List.pairwise_of_forall_mem_list ?_
  intro a ha b hb
  exact Nat.le_of_eq ((((h.mono hn).mem_ring a).1 ha).trans (((h.mono hn).mem_ring b).1 hb).symm)

/-- **A ring is a sphere, and a disk a ball.** Around a center with room for the radius the
ring has every location that far away and no other, and has it once; the disk has those
that are no further away, nearest first. A radius is an unsigned number of half the width, so
never the greatest number, which is also the distance of all that is too far for a number. -/
theorem ring_and_disk (h : HasRoom center radius) (hr : (radius : Int) < Word.greatest) :
    (∀ l, l ∈ center.ring radius ↔ (center.distance l).toInt = radius) ∧
      (center.ring radius).Nodup ∧
      (center.ring radius).length = (if radius = 0 then 1 else 6 * radius) ∧
      (∀ l, l ∈ center.disk radius ↔ (center.distance l).toInt ≤ radius) ∧
      (center.disk radius).Nodup ∧
      (center.disk radius).Pairwise fun a b =>
        (center.distance a).toInt ≤ (center.distance b).toInt := by
  refine ⟨fun l => ?_, h.nodup_ring, ?_, fun l => ?_, h.nodup_disk, ?_⟩
  · rw [h.mem_ring, toInt_distance]
    omega
  · split
    · next hzero => rw [ring, if_pos hzero, List.length_singleton]
    · next hzero => exact length_ring center hzero
  · rw [h.mem_disk, toInt_distance]
    omega
  · refine h.sorted_disk.imp fun hle => ?_
    rw [toInt_distance, toInt_distance]
    omega

/-- There is room for one step next to a corner of the range, but not for two. -/
theorem ring_and_disk_near_corner :
    let center : Location := ⟨Int64.minValue + 1, Int64.maxValue - 1⟩
    HasRoom center 1 ∧ ¬ HasRoom center 2 ∧
      ⟨Int64.minValue, Int64.maxValue⟩ ∈ center.ring 1 ∧
      ⟨Int64.minValue, Int64.maxValue - 2⟩ ∉ center.disk 1 ∧
      (center.ring 1).length = 6 ∧ (center.disk 1).Nodup := by
  intro center
  have hroom : HasRoom center 1 := by decide
  obtain ⟨hring, -, hlength, hdisk, hnodup, -⟩ := ring_and_disk hroom (by decide)
  refine ⟨hroom, by decide, (hring _).2 (by decide), fun hmem => ?_, hlength, hnodup⟩
  exact absurd ((hdisk _).1 hmem) (by decide)

end Location

end Formulary
