import Formulary.Evaluation.World

/-! Dice.

A roll adds up its dice one by one and stops at the first sum that does not fit, so that it
draws as many numbers as it looks at. -/
namespace Formulary

/-- The sum of `count` dice and `total`, if it fits all the way, and the state of the
generator after it. -/
def rollFrom (generator : Generator) (faces : Nat) : Nat → Nat → Nat → Option Nat × Nat
  | 0, state, total => (some total, state)
  | count + 1, state, total =>
    let die := generator.draw state faces
    let total := total + die.1
    if (total : Int) ≤ Word.greatest then rollFrom generator faces count die.2 total
    else (none, die.2)

/-- The sum of `count` dice with `faces` faces. Without dice or without faces nothing is
rolled. -/
def roll (count faces : Int64) : Run Int64 := do
  if count.toInt ≤ 0 || faces.toInt ≤ 0 then pure 0
  else
    let w ← get
    let (total, state) := rollFrom w.generator faces.toInt.toNat count.toInt.toNat w.state 0
    set { w with state := state }
    match total with
    | some n => pure (Int64.ofNat n)
    | none => throw (.overflow (.operator .dice))

/-- A generator that goes through random words: a die shows the next word modulo its number
of faces, counted from 1. -/
def Generator.ofWords (words : Nat → UInt64) : Generator where
  draw state faces := ((words state).toNat % faces + 1, state + 1)
  in_range _ _ h := ⟨Nat.le_add_left 1 _, Nat.mod_lt _ h⟩

/-- The random words that belong to a seed: a counter that goes up in odd steps, with its
bits stirred. -/
def seededWords (seed : UInt64) (n : Nat) : UInt64 :=
  let z := seed + (UInt64.ofNat n + 1) * 0x9E3779B97F4A7C15
  let z := (z ^^^ (z >>> 30)) * 0xBF58476D1CE4E5B9
  let z := (z ^^^ (z >>> 27)) * 0x94D049BB133111EB
  z ^^^ (z >>> 31)

end Formulary
