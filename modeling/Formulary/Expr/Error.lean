import Formulary.Builtin
import Formulary.Token.Lexer

/-! Why a source text is no formula, and the words for it. -/
namespace Formulary

/-- What is wrong with one binding of a `where`. -/
inductive BindingFault where
  | nothingFollows
  | empty
  | notAName (text : String)
  | noValue (name : String)
  | noBinding (text : String)
  deriving DecidableEq, Repr

def BindingFault.message : BindingFault → String
  | .nothingFollows => "nothing follows 'where'"
  | .empty => "empty binding between commas"
  | .notAName text => s!"'{text}' cannot be bound"
  | .noValue name => s!"'{name}=' has no expression"
  | .noBinding text => s!"'{text}' is not a binding"

inductive ParseError where
  | lexical (cause : LexError)
  /-- Nothing stands where an expression is needed. -/
  | emptyExpression
  /-- A bracket without a partner. -/
  | unbalanced (bracket : String) (position : Nat)
  | unknownFunction (name : String)
  | argumentCount (function : Builtin) (got : Nat)
  /-- An operator that takes no operand on its right alone. -/
  | notUnary (spelling : String)
  /-- An operator that does not join two operands. -/
  | notBinary (spelling : String)
  /-- A number that does not fit in 64 bits. -/
  | notAnInteger (text : String)
  | malformedWhere (fault : BindingFault)
  /-- A name bound twice in one `where`. -/
  | duplicateBinding (name : String)
  /-- Tokens that form no expression. -/
  | unparseable (text : String)
  /-- A fragment of a text that is no expression itself. -/
  | interpolation (fragment : String) (cause : ParseError)
  deriving Repr

def ParseError.message : ParseError → String
  | .lexical cause => cause.message
  | .emptyExpression => "empty expression"
  | .unbalanced bracket position => s!"unmatched '{bracket}' at position {position}"
  | .unknownFunction name => s!"no function '{name}'"
  | .argumentCount f got =>
    s!"function '{f.name}' expects {f.arity.describe} arguments, got {got}"
  | .notUnary spelling => s!"illegal unary operator '{spelling}'"
  | .notBinary spelling => s!"illegal binary operator '{spelling}'"
  | .notAnInteger text => s!"invalid integer literal '{text}'"
  | .malformedWhere fault =>
    s!"malformed where clause: {fault.message}; 'where name=<expression>' was needed"
  | .duplicateBinding name => s!"duplicate where binding '{name}'"
  | .unparseable text => s!"could not parse expression: '{text}'"
  | .interpolation fragment cause =>
    "in substitution '\x7b" ++ fragment ++ "\x7d': " ++ cause.message

end Formulary
