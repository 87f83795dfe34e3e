import Formulary.Builtin
import Formulary.Operator

/-! Expression trees. -/
namespace Formulary

inductive Expr where
  | integer (n : Int64)
  /-- A text, and the expressions whose values are put into it, each at a byte position
  of `text`. They are stored from back to front: putting in a later one leaves the
  positions of the earlier ones valid. -/
  | text (text : String) (inserts : List (Nat × Expr))
  | list (items : List Expr)
  /-- Look-up of a name in the current scope. -/
  | name (name : String)
  | unary (op : UnaryOp) (operand : Expr)
  | binary (op : BinaryOp) (left right : Expr)
  /-- `list.index`, with the index evaluated in the current scope, or `object.expression`,
  with the expression evaluated inside the object. -/
  | member (subject selector : Expr)
  | call (function : Builtin) (arguments : List Expr)
  /-- `body where name = value, …` -/
  | clauses (body : Expr) (bindings : List (String × Expr))
  deriving BEq, Repr

/-- A text literal with its `{…}` fragments cut out and compiled. -/
structure Template where
  text : String
  inserts : List (Nat × Expr)
  deriving BEq, Repr

def Template.toExpr (t : Template) : Expr :=
  .text t.text t.inserts

end Formulary
