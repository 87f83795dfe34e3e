import Formulary.Environment
import Formulary.Evaluation
import Formulary.Expr.Parser
import Formulary.Value.Source

/-! Formulas: source text compiled once, to be run in any number of environments. -/
namespace Formulary

structure Formula where
  source : String
  expr : Expr
  deriving BEq, Repr

namespace Formula

def compile (source : String) : Except ParseError Formula :=
  return ⟨source, ← parse source⟩

/-- A whole text as a formula: its `{…}` fragments are put in, the rest is kept. -/
def ofTemplate (text : String) : Except ParseError Formula :=
  return ⟨text, (← Template.parse text).toExpr⟩

/-- The formula of a setting that may be left blank. A source that is no formula counts as
none. -/
def compile? (source : String) : Option Formula :=
  if source.toList.all Text.isBlank then none
  else (compile source).toOption

def run (f : Formula) (env : Object) : Run Value :=
  f.expr.eval (.object env)

/-- The value of a formula, with the missing value for an error. -/
def runOrMissing (f : Formula) (env : Object) : Always Value :=
  (f.run env).orMissing

/-- The value of a formula that may be missing itself. -/
def runOr (f : Option Formula) (env : Object) (default : Value) : Always Value :=
  match f with
  | some f => f.runOrMissing env
  | none => pure default

end Formula

/-! ### Values read back from their source -/

inductive ReadError where
  | parse (cause : ParseError)
  | eval (cause : EvalError)
  deriving Repr

def ReadError.message : ReadError → String
  | .parse cause => cause.message
  | .eval cause => cause.message

/-- The value of a source with nothing in scope. -/
def Value.ofSource (source : String) : ExceptT ReadError Always Value := do
  match Formula.compile source with
  | .error e => throw (.parse e)
  | .ok f =>
    match ← (f.run Environment.empty.toObject).run with
    | .ok v => pure v
    | .error e => throw (.eval e)

end Formulary
