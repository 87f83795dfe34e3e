import Formulary.Evaluation.Interpolation
import Formulary.Scope
import Formulary.Sorting
import Formulary.Value.Order

/-! The built-in functions.

A function gets the meanings of its arguments, not their values: `if` runs only the branch
that it takes, and the list functions run an argument once for each element. All other
arguments run once, from left to right, and each is looked at before the next one runs.

An expression runs for an element of a list inside the element if that is an object, and
otherwise with the element bound to `value`. -/
namespace Formulary

namespace Builtin

/-! ### Arguments -/

def integerArgument (f : Builtin) (argument : Meaning) (scope : Scope) : Run Int64 := do
  let v ← argument scope
  Run.ofExcept (v.asInteger (.argument f))

def listArgument (f : Builtin) (argument : Meaning) (scope : Scope) : Run (List Value) := do
  let v ← argument scope
  Run.ofExcept (v.asList (.argument f))

def locationArgument (argument : Meaning) (scope : Scope) : Run Location := do
  match ← argument scope with
  | .object _ (.tile l) => pure l
  | v => throw (.typeMismatch .location v.kind (.argument .distance))

/-- An argument for one element of a list. -/
def forElement (argument : Meaning) (scope : Scope) (element : Value) : Run Value :=
  match element with
  | .object _ attributes => argument (.object attributes)
  | v => argument (scope.element v)

/-- Whether a condition holds for one element of a list. -/
def holdsFor (condition : Meaning) (scope : Scope) (element : Value) : Run Bool := do
  let v ← forElement condition scope element
  Run.ofExcept v.truth

/-! ### Least, greatest and best -/

/-- Keep a candidate if it is the first, or compares as `wanted` with the best so far. -/
def better (wanted : Ordering) (best : Option Value) (candidate : Value) :
    Except EvalError (Option Value) :=
  match best with
  | none => .ok (some candidate)
  | some current => do
    let o ← candidate.order current
    pure (some (if o = wanted then candidate else current))

/-- What an argument of `min` and `max` has to offer: the elements of a list, or itself. -/
def offers : Value → List Value
  | .list items => items
  | v => [v]

/-- The extreme of all that the arguments offer; the first of several. -/
def extreme (wanted : Ordering) (arguments : List Meaning) (scope : Scope) : Run Value := do
  let best ← arguments.foldlM (fun best argument => do
    let v ← argument scope
    Run.ofExcept ((offers v).foldlM (better wanted) best)) none
  pure (best.getD .missing)

/-- The element with the greatest score; the first of several. -/
def chooseBest (score : Meaning) (scope : Scope) (items : List Value) : Run Value := do
  let best ← items.foldlM (fun best item => do
    let s ← forElement score scope item
    match best with
    | none => pure (some (s, item))
    | some (bestScore, _) =>
      let o ← Run.ofExcept (s.order bestScore)
      pure (if o = .gt then some (s, item) else best)) (none : Option (Value × Value))
  pure ((best.map Prod.snd).getD .missing)

/-! ### Order -/

/-- Whether a value comes before another in the natural order. -/
def precedes (a b : Value) : Run Bool := do
  let o ← Run.ofExcept (a.order b)
  pure (o == .lt)

/-- Whether a value comes before another by an expression over `a` and `b`. -/
def precedesBy (before : Meaning) (scope : Scope) (a b : Value) : Run Bool := do
  let v ← before (scope.pair a b)
  Run.ofExcept v.truth

/-! ### Sums -/

/-- The sum of a list; every partial sum has to fit. -/
def total (items : List Value) : Run Int64 :=
  items.foldlM (fun sum item => do
    let n ← Run.ofExcept (item.asInteger (.argument .sum))
    Run.narrow (.function .sum) (sum.toInt + n.toInt)) 0

/-! ### Calls -/

/-- A call with an accepted count of arguments. -/
def applyAccepted (f : Builtin) (arguments : List Meaning) (scope : Scope) : Run Value :=
  match f, arguments with
  | .branch, [condition, yes, no] => do
    let v ← condition scope
    if ← Run.ofExcept v.truth then yes scope else no scope
  | .abs, [argument] => do
    let n ← f.integerArgument argument scope
    .integer <$> Run.narrow (.function .abs) n.toInt.natAbs
  | .min, arguments => extreme .lt arguments scope
  | .max, arguments => extreme .gt arguments scope
  | .choose, [list, score] => do
    let items ← f.listArgument list scope
    chooseBest score scope items
  | .sort, [list] => do
    let items ← f.listArgument list scope
    .list <$> mergeSort precedes items
  | .sort, [list, before] => do
    let items ← f.listArgument list scope
    .list <$> mergeSort (precedesBy before scope) items
  | .filter, [list, condition] => do
    let items ← f.listArgument list scope
    .list <$> items.filterMapM fun item => do
      if ← holdsFor condition scope item then pure (some item) else pure none
  | .find, [list, condition] => do
    let items ← f.listArgument list scope
    let found ← items.findM? (holdsFor condition scope)
    pure (found.getD .missing)
  | .map, [list, expression] => do
    let items ← f.listArgument list scope
    .list <$> items.mapM (forElement expression scope)
  | .sum, [list] => do
    let items ← f.listArgument list scope
    .integer <$> total items
  | .head, [list] => do
    let v ← list scope
    Run.ofExcept (v.element 0)
  | .size, [list] => do
    let items ← f.listArgument list scope
    pure (.ofInt items.length)
  | .rgb, channels => do
    let channels ← channels.mapM fun argument => f.integerArgument argument scope
    pure (.integer (packChannels channels))
  | .transition, arguments => do
    match ← arguments.mapM fun argument => f.integerArgument argument scope with
    | [x, b, low, e, high] => .integer <$> interpolate ⟨b, low⟩ ⟨e, high⟩ x
    | numbers => throw (.argumentCount f numbers.length)
  | .colorTransition, arguments => do
    match ← arguments.mapM fun argument => f.integerArgument argument scope with
    | x :: points => .integer <$> interpolateColor (pairUp points) x
    | [] => throw (.argumentCount f 0)
  | .loc, [column, row] => do
    let x ← f.integerArgument column scope
    let y ← f.integerArgument row scope
    newObject (.tile ⟨x, y⟩)
  | .distance, [start, goal] => do
    let a ← locationArgument start scope
    let b ← locationArgument goal scope
    match a.distance? b with
    | some n => pure (.integer n)
    | none => throw (.overflow (.function .distance))
  | f, arguments => throw (.argumentCount f arguments.length)

/-- A call. The count of arguments is checked before any of them runs. -/
def apply (f : Builtin) (arguments : List Meaning) (scope : Scope) : Run Value :=
  if f.arity.accepts arguments.length then f.applyAccepted arguments scope
  else throw (.argumentCount f arguments.length)

end Builtin

end Formulary
