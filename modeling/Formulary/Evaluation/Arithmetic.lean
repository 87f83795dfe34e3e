import Formulary.Evaluation.Dice
import Formulary.Value.Order

/-! What operators do with values.

Arithmetic is exact or fails: a result beyond 64 bits is an overflow, and a division by
zero is refused before. Quotients go toward zero and remainders have the sign of the
dividend; a remainder is refused where its quotient does not fit. -/
namespace Formulary

namespace UnaryOp

def apply (op : UnaryOp) (v : Value) : Run Value :=
  match op with
  | .not => do
    let b ← Run.ofExcept v.truth
    pure (.ofBool !b)
  | .negate => do
    let n ← Run.ofExcept (v.asInteger .negation)
    .integer <$> Run.narrow .negation (-n.toInt)

end UnaryOp

/-- `factor * base ^ exponent` for a positive exponent, by squaring. Every product on the way
has to fit; behind the last factor the base is not squared once more. -/
def powerBySquaring? (factor base : Int64) (exponent : Nat) : Option Int64 :=
  if exponent ≤ 1 then Word.narrow? (factor.toInt * base.toInt)
  else do
    let factor ←
      if exponent % 2 = 1 then Word.narrow? (factor.toInt * base.toInt) else some factor
    let base ← Word.narrow? (base.toInt * base.toInt)
    powerBySquaring? factor base (exponent / 2)

/-- The power of an integer, if it fits. -/
def wholePower? (base : Int64) (exponent : Nat) : Option Int64 :=
  if exponent = 0 then some 1 else powerBySquaring? 1 base exponent

/-- The greatest exponent that is tried. -/
def greatestExponent : Int := 4294967295

/-- The integer power, with the whole part of the real power for a negative exponent: that
is 0 for all bases but 1 and -1. -/
def powerOf (base exponent : Int64) : Run Int64 :=
  let b := base.toInt
  let e := exponent.toInt
  if 0 ≤ e then
    match if e ≤ greatestExponent then wholePower? base e.toNat else none with
    | some n => pure n
    | none => throw (.overflow (.operator .power))
  else if b = 0 then throw .divisionByZero
  else if b = 1 then pure 1
  else if b = -1 then pure (if e % 2 = 0 then 1 else -1)
  else pure 0

namespace BinaryOp

/-- The two operands as integers; the left one is looked at first. -/
def operands (op : BinaryOp) (left right : Value) : Run (Int64 × Int64) := do
  let a ← Run.ofExcept (left.asInteger (.operator op))
  let b ← Run.ofExcept (right.asInteger (.operator op))
  pure (a, b)

/-- An operation on integers that is exact or overflows. -/
def arithmetic (op : BinaryOp) (f : Int → Int → Int) (left right : Value) : Run Value := do
  let (a, b) ← op.operands left right
  .integer <$> Run.narrow (.operator op) (f a.toInt b.toInt)

/-- The quotient and the remainder of two integers. -/
def division (op : BinaryOp) (left right : Value) : Run (Int64 × Int64) := do
  let (a, b) ← op.operands left right
  if b = 0 then throw .divisionByZero
  let quotient ← Run.narrow (.operator op) (a.toInt.tdiv b.toInt)
  let remainder ← Run.narrow (.operator op) (a.toInt.tmod b.toInt)
  pure (quotient, remainder)

def comparison (test : Ordering → Bool) (left right : Value) : Run Value := do
  let o ← Run.ofExcept (left.order right)
  pure (.ofBool (test o))

def apply (op : BinaryOp) (left right : Value) : Run Value :=
  match op with
  | .or => do
    let a ← Run.ofExcept left.truth
    let b ← Run.ofExcept right.truth
    pure (.ofBool (a || b))
  | .and => do
    let a ← Run.ofExcept left.truth
    let b ← Run.ofExcept right.truth
    pure (.ofBool (a && b))
  | .equal => do
    let same ← Run.ofExcept (left.equals right)
    pure (.ofBool same)
  | .notEqual => do
    let same ← Run.ofExcept (left.equals right)
    pure (.ofBool !same)
  | .less => comparison (· == .lt) left right
  | .greater => comparison (· == .gt) left right
  | .lessEqual => comparison (· != .gt) left right
  | .greaterEqual => comparison (· != .lt) left right
  | .add => op.arithmetic (· + ·) left right
  | .subtract => op.arithmetic (· - ·) left right
  | .multiply => op.arithmetic (· * ·) left right
  | .divide => do
    let (quotient, _) ← op.division left right
    pure (.integer quotient)
  | .modulo => do
    let (_, remainder) ← op.division left right
    pure (.integer remainder)
  | .power => do
    let (base, exponent) ← op.operands left right
    .integer <$> powerOf base exponent
  | .dice => do
    let (count, faces) ← op.operands left right
    .integer <$> roll count faces

end BinaryOp

end Formulary
