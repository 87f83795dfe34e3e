import Formulary.Value

/-! Values as formulas: the source text that evaluates to a value.

A text literal has no escapes, so a text with a quote or an opening brace has no source,
and neither has an object. The least integer is written as a subtraction, for its digits
alone are too great a number. -/
namespace Formulary.Value

mutual

def source : Value → Except EvalError String
  | .integer n =>
    .ok (if n.toInt = Word.least then s!"({Word.least + 1}-1)" else toString n.toInt)
  | .text s =>
    if s.toList.any (fun c => c = '\'' || c = '\x7b') then .error (.notSerializable .quoteOrBrace)
    else .ok ("'" ++ s ++ "'")
  | .list items => do return "[" ++ ",".intercalate (← sourceItems items) ++ "]"
  | .object _ _ => .error (.notSerializable .object)

def sourceItems : List Value → Except EvalError (List String)
  | [] => .ok []
  | v :: rest => return (← v.source) :: (← sourceItems rest)

end

end Formulary.Value
