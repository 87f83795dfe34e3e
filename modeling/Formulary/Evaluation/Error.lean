import Formulary.Builtin
import Formulary.Operator

/-! Why an evaluation fails, and the words for it. -/
namespace Formulary

/-- The kinds of value. -/
inductive Kind where
  | integer
  | text
  | list
  | object
  deriving DecidableEq, Repr

def Kind.name : Kind → String
  | .integer => "integer"
  | .text => "string"
  | .list => "list"
  | .object => "object"

/-- What a place accepts. -/
inductive Wanted where
  | only (kind : Kind)
  | location
  | listOrObject
  | ordered
  deriving DecidableEq, Repr

def Wanted.name : Wanted → String
  | .only kind => kind.name
  | .location => "location"
  | .listOrObject => "list or object"
  | .ordered => "integer, string or list"

/-- A place where a value is used. -/
inductive Place where
  | operator (op : BinaryOp)
  | negation
  | condition
  | integerOperand
  | textOperand
  | listOperand
  | attributeAccess
  | listIndex
  | memberAccess
  | equality
  | ordering
  | argument (function : Builtin)
  deriving DecidableEq, Repr

def Place.name : Place → String
  | .operator op => s!"operator '{op.symbol}'"
  | .negation => "unary '-'"
  | .condition => "boolean condition"
  | .integerOperand => "integer operand"
  | .textOperand => "string operand"
  | .listOperand => "list operand"
  | .attributeAccess => "attribute access"
  | .listIndex => "list index"
  | .memberAccess => "member access"
  | .equality => "equality"
  | .ordering => "ordering"
  | .argument f => f.name

/-- What computes an integer. -/
inductive Computation where
  | operator (op : BinaryOp)
  | negation
  | function (f : Builtin)
  deriving DecidableEq, Repr

def Computation.name : Computation → String
  | .operator op => op.symbol
  | .negation => "-"
  | .function f => f.name

/-- What has no written form. -/
inductive Unwritable where
  | object
  | quoteOrBrace
  deriving DecidableEq, Repr

def Unwritable.name : Unwritable → String
  | .object => "object"
  | .quoteOrBrace => "quote or brace in string"

/-- An error that carries words of its own. Those that evaluation finds have fixed words; an
object of the host may report one with any. -/
inductive Report where
  | typeMismatch (expected got context : String)
  | overflow (computation : String)
  | invalidArgument (function reason : String)
  | notSerializable (what : String)
  deriving DecidableEq, Repr

def Report.message : Report → String
  | typeMismatch expected got context => s!"type error in {context}: expected {expected}, got {got}"
  | overflow computation => s!"integer overflow in '{computation}'"
  | invalidArgument function reason => s!"invalid argument to {function}: {reason}"
  | notSerializable what => s!"{what} values cannot be serialized"

inductive EvalError where
  | typeMismatch (wanted : Wanted) (got : Kind) (place : Place)
  | indexOutOfRange (index : Int64) (length : Nat)
  | divisionByZero
  /-- A result beyond 64 bits. -/
  | overflow (computation : Computation)
  /-- A call with a count of arguments that its function does not take. -/
  | argumentCount (function : Builtin) (got : Nat)
  /-- Break points of a color transition that do not ascend. -/
  | boundariesNotIncreasing
  | readOnly (key : String)
  | notSerializable (what : Unwritable)
  /-- What an object of the host reports in its own words. -/
  | host (report : Report)
  deriving DecidableEq, Repr

def EvalError.message : EvalError → String
  | .typeMismatch wanted got place =>
    Report.message (.typeMismatch wanted.name got.name place.name)
  | .indexOutOfRange index length =>
    s!"index {index.toInt} out of range for list of length {length}"
  | .divisionByZero => "division by zero"
  | .overflow computation => Report.message (.overflow computation.name)
  | .argumentCount f got =>
    Report.message (.invalidArgument f.name s!"expected {f.arity.describe} arguments, got {got}")
  | .boundariesNotIncreasing =>
    Report.message
      (.invalidArgument Builtin.colorTransition.name "boundaries must be strictly increasing")
  | .readOnly key => s!"cannot set '{key}' on a read-only object"
  | .notSerializable what => Report.message (.notSerializable what.name)
  | .host report => report.message

end Formulary
