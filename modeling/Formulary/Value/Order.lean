import Formulary.Value

/-! Comparing values.

`order` is the order behind comparisons, `sort`, `choose`, `min` and `max`: integers by
size, texts by code points, lists element by element with a proper beginning first.
Objects and values of different kinds have no order. `equals` is the `=` of formulas,
defined between values of one kind only. Both stop at the first difference they meet, so
what stands behind it in a list does not matter. -/
namespace Formulary.Value

def orderTexts (a b : String) : Ordering :=
  if a < b then .lt else if a = b then .eq else .gt

mutual

def order : Value → Value → Except EvalError Ordering
  | .integer a, .integer b => .ok (compare a.toInt b.toInt)
  | .text a, .text b => .ok (orderTexts a b)
  | .list a, .list b => orderItems a b
  | a, b =>
    if a.kind = .object || b.kind = .object then
      .error (.typeMismatch .ordered .object .ordering)
    else .error (.typeMismatch (.only a.kind) b.kind .ordering)

def orderItems : List Value → List Value → Except EvalError Ordering
  | [], [] => .ok .eq
  | [], _ :: _ => .ok .lt
  | _ :: _, [] => .ok .gt
  | a :: as, b :: bs =>
    match a.order b with
    | .ok .eq => orderItems as bs
    | unequal => unequal

end

mutual

def equals : Value → Value → Except EvalError Bool
  | .integer a, .integer b => .ok (a = b)
  | .text a, .text b => .ok (a = b)
  | .list a, .list b => if a.length = b.length then equalItems a b else .ok false
  | .object a _, .object b _ => .ok (a = b)
  | a, b => .error (.typeMismatch (.only a.kind) b.kind .equality)

def equalItems : List Value → List Value → Except EvalError Bool
  | a :: as, b :: bs =>
    match a.equals b with
    | .ok true => equalItems as bs
    | unequal => unequal
  | _, _ => .ok true

end

end Formulary.Value
