import Formulary.Document
import Formulary.Evaluation.Error
import Formulary.Hex.Location
import Formulary.Text.Quoted

/-! Values, and the objects whose attributes formulas read.

There are four kinds of value and no separate null: the integer 0 stands for a value
that is missing. An object has an identity, a number that no two objects share. Two
objects are the same if their identities are, whatever their attributes. -/
namespace Formulary

mutual

inductive Value where
  | integer (n : Int64)
  | text (s : String)
  | list (items : List Value)
  | object (identity : Nat) (attributes : Object)

/-- Where the attributes of an object come from. -/
inductive Object where
  /-- No attributes. -/
  | nothing
  /-- A tile, with `x`, `y` and `valid`. -/
  | tile (location : Location)
  /-- The fields of a document. -/
  | record (fields : List (String × Document))
  /-- A `Keyed` table of its own, and an object that is asked for everything else. -/
  | layer (entries : List (String × Value)) (fallback : Object)
  /-- An object of the host, which alone knows its attributes. Its concrete type is one of
  the host's own, neither that of a tile nor that of a record. -/
  | host (handle : Nat)

end

namespace Value

/-- What stands for a missing value. -/
def missing : Value := .integer 0

def ofInt (n : Int) : Value := .integer (Int64.ofInt n)

def ofBool (b : Bool) : Value := .integer (if b then 1 else 0)

def kind : Value → Kind
  | .integer _ => .integer
  | .text _ => .text
  | .list _ => .list
  | .object _ _ => .object

/-! ### Views -/

/-- The integer behind a value, for a place that needs one. -/
def asInteger (place : Place) : Value → Except EvalError Int64
  | .integer n => .ok n
  | v => .error (.typeMismatch (.only .integer) v.kind place)

def asText (place : Place) : Value → Except EvalError String
  | .text s => .ok s
  | v => .error (.typeMismatch (.only .text) v.kind place)

def asList (place : Place) : Value → Except EvalError (List Value)
  | .list items => .ok items
  | v => .error (.typeMismatch (.only .list) v.kind place)

def asObject (place : Place) : Value → Except EvalError Object
  | .object _ attributes => .ok attributes
  | v => .error (.typeMismatch (.only .object) v.kind place)

/-- Only integers have a truth value. -/
def truth (v : Value) : Except EvalError Bool := do
  let n ← v.asInteger .condition
  pure (n ≠ 0)

/-- The element of a list at an index, counted from 0. -/
def element (v : Value) (index : Int64) : Except EvalError Value := do
  let items ← v.asList .listOperand
  let outside := EvalError.indexOutOfRange index items.length
  if index.toInt < 0 then throw outside
  match items[index.toInt.toNat]? with
  | some item => pure item
  | none => throw outside

/-! ### Sameness -/

mutual

/-- The same value: the same kind and content, or the same object. -/
def same : Value → Value → Bool
  | .integer a, .integer b => a = b
  | .text a, .text b => a = b
  | .list a, .list b => sameItems a b
  | .object a _, .object b _ => a = b
  | _, _ => false

def sameItems : List Value → List Value → Bool
  | [], [] => true
  | a :: as, b :: bs => a.same b && sameItems as bs
  | _, _ => false

end

/-! ### Text -/

mutual

/-- A value as it is put into a text. -/
def display : Value → String
  | .integer n => toString n.toInt
  | .text s => s
  | .list items => ", ".intercalate (displayItems items)
  | .object _ _ => "(object)"

def displayItems : List Value → List String
  | [] => []
  | v :: rest => v.display :: displayItems rest

end

mutual

/-- A value with its kind, for diagnostics. -/
def describe : Value → String
  | .integer n => s!"Integer({n.toInt})"
  | .text s => "String(" ++ Text.quoted s ++ ")"
  | .list items => "List([" ++ ", ".intercalate (describeItems items) ++ "])"
  | .object identity _ => s!"Object({identity})"

def describeItems : List Value → List String
  | [] => []
  | v :: rest => v.describe :: describeItems rest

end

end Value

end Formulary
