/-! Operators: their spellings, how tightly each binds, and how chains group. -/
namespace Formulary

inductive BinaryOp where
  /-- Both sides of `or` and `and` are always evaluated. -/
  | or
  | and
  | equal
  | notEqual
  | less
  | greater
  | lessEqual
  | greaterEqual
  | add
  | subtract
  | multiply
  | divide
  | modulo
  | power
  /-- `3d6` rolls three dice of six faces. -/
  | dice
  deriving DecidableEq, Repr

namespace BinaryOp

def all : List BinaryOp :=
  [.or, .and, .equal, .notEqual, .less, .greater, .lessEqual, .greaterEqual, .add, .subtract,
   .multiply, .divide, .modulo, .power, .dice]

def symbol : BinaryOp → String
  | .or => "or"
  | .and => "and"
  | .equal => "="
  | .notEqual => "!="
  | .less => "<"
  | .greater => ">"
  | .lessEqual => "<="
  | .greaterEqual => ">="
  | .add => "+"
  | .subtract => "-"
  | .multiply => "*"
  | .divide => "/"
  | .modulo => "%"
  | .power => "^"
  | .dice => "d"

def ofSymbol? (spelling : String) : Option BinaryOp :=
  all.find? fun op => op.symbol = spelling

theorem ofSymbol?_symbol (op : BinaryOp) : ofSymbol? op.symbol = some op := by
  cases op <;> decide

theorem symbol_of_ofSymbol? {spelling : String} {op : BinaryOp} (h : ofSymbol? spelling = some op) :
    op.symbol = spelling := by
  simpa using List.find?_some h

end BinaryOp

/-- Operators written before their operand. -/
inductive UnaryOp where
  | not
  | negate
  deriving DecidableEq, Repr

namespace UnaryOp

def symbol : UnaryOp → String
  | .not => "not"
  | .negate => "-"

def ofSymbol? : String → Option UnaryOp
  | "not" => some .not
  | "-" => some .negate
  | _ => none

theorem ofSymbol?_symbol (op : UnaryOp) : ofSymbol? op.symbol = some op := by
  cases op <;> rfl

end UnaryOp

/-- How tightly a spelling binds, from the loosest at 1; `none` if it is no operator.
Spellings of one number share a band. -/
def precedence? : String → Option Nat
  | "not" => some 1
  | "where" => some 2
  | "or" => some 3
  | "and" => some 4
  | "=" | "!=" | "<" | ">" | "<=" | ">=" => some 5
  | "+" | "-" => some 6
  | "*" => some 7
  | "/" => some 8
  | "%" => some 9
  | "^" => some 10
  | "d" => some 11
  | "." => some 12
  | _ => none

/-- Words that act as operators. -/
def isWordOperator : String → Bool
  | "not" | "where" | "or" | "and" | "d" => true
  | _ => false

/-- Chains of `^` group to the right, all others to the left. -/
def groupsRight (spelling : String) : Bool :=
  spelling = "^"

end Formulary
