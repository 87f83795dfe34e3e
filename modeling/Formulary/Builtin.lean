/-! The built-in functions: names and argument counts. A formula cannot define
functions of its own, so this table is complete. -/
namespace Formulary

inductive Builtin where
  /-- `if(condition, then, else)`; only the branch taken is evaluated. -/
  | branch
  | abs
  /-- `min(a, …)` and `max(a, …)` look into list arguments. -/
  | min
  | max
  /-- `choose(list, score)`: the element with the greatest score. -/
  | choose
  /-- `sort(list)` or `sort(list, a < b)`. -/
  | sort
  | filter
  /-- `find(list, predicate)`: the first match, or 0. -/
  | find
  | map
  | sum
  | head
  | size
  /-- `rgb(r, g, b)` packs three channels of two decimal digits each. -/
  | rgb
  /-- `transition(value, begin, from, end, to)`: linear interpolation. -/
  | transition
  /-- `color_transition(value, b0, c0, b1, c1, …)`: interpolation by channels. -/
  | colorTransition
  /-- `loc(x, y)`: a tile of the hexagonal map. -/
  | loc
  | distance
  deriving DecidableEq, Repr

/-- The argument counts a function takes. -/
inductive Arity where
  | exactly (n : Nat)
  | between (least greatest : Nat)
  | atLeast (n : Nat)
  /-- An odd count of at least `n`. -/
  | oddAtLeast (n : Nat)
  deriving DecidableEq, Repr

namespace Arity

def accepts : Arity → Nat → Bool
  | .exactly k, n => n = k
  | .between least greatest, n => least ≤ n && n ≤ greatest
  | .atLeast k, n => k ≤ n
  | .oddAtLeast k, n => k ≤ n && n % 2 = 1

def describe : Arity → String
  | .exactly k => toString k
  | .between least greatest => s!"{least} to {greatest}"
  | .atLeast k => s!"at least {k}"
  | .oddAtLeast k => s!"an odd number, at least {k},"

end Arity

namespace Builtin

def all : List Builtin :=
  [.branch, .abs, .min, .max, .choose, .sort, .filter, .find, .map, .sum, .head, .size, .rgb,
   .transition, .colorTransition, .loc, .distance]

def name : Builtin → String
  | .branch => "if"
  | .abs => "abs"
  | .min => "min"
  | .max => "max"
  | .choose => "choose"
  | .sort => "sort"
  | .filter => "filter"
  | .find => "find"
  | .map => "map"
  | .sum => "sum"
  | .head => "head"
  | .size => "size"
  | .rgb => "rgb"
  | .transition => "transition"
  | .colorTransition => "color_transition"
  | .loc => "loc"
  | .distance => "distance"

def ofName? (spelling : String) : Option Builtin :=
  all.find? fun f => f.name = spelling

def arity : Builtin → Arity
  | .branch | .rgb => .exactly 3
  | .abs | .sum | .head | .size => .exactly 1
  | .min | .max => .atLeast 1
  | .sort => .between 1 2
  | .choose | .filter | .find | .map | .loc | .distance => .exactly 2
  | .transition => .exactly 5
  | .colorTransition => .oddAtLeast 5

theorem ofName?_name (f : Builtin) : ofName? f.name = some f := by
  cases f <;> decide

theorem name_of_ofName? {spelling : String} {f : Builtin} (h : ofName? spelling = some f) :
    f.name = spelling := by
  simpa using List.find?_some h

end Builtin

end Formulary
