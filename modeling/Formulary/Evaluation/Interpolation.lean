import Formulary.Evaluation.World

/-! Linear interpolation, of a number and of a color.

Between two points the level is the average of their levels, weighted by the distances to
the other point, toward zero; at a point it is that point's, and outside it is 0. Every
step is exact or overflows, so a level is never a wrapped number.

A color packs three channels of two decimal digits each: red, green, blue. A color
transition finds the first segment that holds the value and interpolates each channel. -/
namespace Formulary

/-- A position and the level there. -/
structure Point where
  position : Int64
  level : Int64
  deriving DecidableEq, Repr

/-- The level at `x` between two points, or nothing where a step does not fit. -/
def interpolate? (lower upper : Point) (x : Int64) : Option Int64 :=
  let b := lower.position.toInt
  let e := upper.position.toInt
  let v := x.toInt
  if v < b || e < v then some 0
  else if v = b then some lower.level
  else if v = e then some upper.level
  else do
    let toEnd ← Word.narrow? (e - v)
    let fromBegin ← Word.narrow? (v - b)
    let span ← Word.narrow? (e - b)
    let first ← Word.narrow? (lower.level.toInt * toEnd.toInt)
    let second ← Word.narrow? (upper.level.toInt * fromBegin.toInt)
    let sum ← Word.narrow? (first.toInt + second.toInt)
    Word.narrow? (sum.toInt.tdiv span.toInt)

def interpolate (lower upper : Point) (x : Int64) : Run Int64 :=
  match interpolate? lower upper x with
  | some n => pure n
  | none => throw (.overflow (.function .transition))

/-! ### Colors -/

/-- A channel is kept within its two digits. -/
def clampChannel (n : Int64) : Int :=
  max 0 (min 99 n.toInt)

/-- Channels as one number, the first in the highest place. -/
def packChannels (channels : List Int64) : Int64 :=
  Int64.ofInt (channels.foldl (fun packed c => packed * 100 + clampChannel c) 0)

/-- One channel of a color; `place` is 10000, 100 or 1. -/
def channel (color : Int64) (place : Int) : Int64 :=
  Int64.ofInt ((color.toInt.tdiv place).tmod 100)

/-- The points of a flat list of positions and levels. -/
def pairUp : List Int64 → List Point
  | position :: level :: rest => ⟨position, level⟩ :: pairUp rest
  | _ => []

/-- The segments between neighbouring points. -/
def segments (points : List Point) : List (Point × Point) :=
  points.zip points.tail

/-- The color at `x` on a line of points. -/
def interpolateColor (points : List Point) (x : Int64) : Run Int64 := do
  if (segments points).any fun (a, b) => b.position.toInt ≤ a.position.toInt then
    throw .boundariesNotIncreasing
  let inside := (segments points).find? fun (a, b) =>
    a.position.toInt ≤ x.toInt && x.toInt ≤ b.position.toInt
  match inside with
  | none => pure 0
  | some (a, b) =>
    let channels ← [10000, 100, 1].mapM fun place =>
      interpolate ⟨a.position, channel a.level place⟩ ⟨b.position, channel b.level place⟩ x
    pure (packChannels channels)

end Formulary
