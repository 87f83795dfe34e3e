import Formulary.Evaluation.Arithmetic
import Formulary.Evaluation.Functions
import Formulary.Expr
import Formulary.Text.Byte

/-! Evaluation of expression trees.

`Expr.eval` gives each expression its meaning, by recursion on the tree: operands run from
left to right, and the first error ends the evaluation. What a text has put into it runs
from back to front. A `where` opens a layer of clauses, each a computation in the scope
around the `where`, so that clauses do not see each other. -/
namespace Formulary

/-- A text with the values of some expressions put into it, one after the other. -/
def splice (inserts : List (Nat × Meaning)) (scope : Scope) (text : String) : Run String :=
  inserts.foldlM (fun text insert => do
    let v ← insert.2 scope
    pure (Text.insertAt insert.1 v.display text)) text

/-- Access to a member: an element of a list by an index from the current scope, or an
expression inside an object. -/
def selectMember (subject : Value) (selector : Meaning) (scope : Scope) : Run Value :=
  match subject with
  | .list items => do
    let v ← selector scope
    let index ← Run.ofExcept (v.asInteger .listIndex)
    Run.ofExcept ((Value.list items).element index)
  | .object _ attributes => selector (.object attributes)
  | v => throw (.typeMismatch .listOrObject v.kind .memberAccess)

namespace Expr

mutual

def eval : Expr → Meaning
  | integer n, _ => pure (.integer n)
  | text s inserts, scope => .text <$> splice (insertMeanings inserts) scope s
  | list items, scope => .list <$> (meanings items).mapM (· scope)
  | name n, scope => scope.query n
  | unary op operand, scope => do
    let v ← operand.eval scope
    op.apply v
  | binary op left right, scope => do
    let a ← left.eval scope
    let b ← right.eval scope
    op.apply a b
  | member subject selector, scope => do
    let v ← subject.eval scope
    selectMember v selector.eval scope
  | call f arguments, scope => f.apply (meanings arguments) scope
  | clauses body bindings, scope => do
    let inner ← Scope.openClauses (clauseRuns bindings scope) scope
    body.eval inner

/-- The meanings of several expressions. -/
def meanings : List Expr → List Meaning
  | [] => []
  | e :: rest => e.eval :: meanings rest

/-- The meanings of what is put into a text, with the positions. -/
def insertMeanings : List (Nat × Expr) → List (Nat × Meaning)
  | [] => []
  | (position, e) :: rest => (position, e.eval) :: insertMeanings rest

/-- The bindings of a `where` as computations in the scope around it. -/
def clauseRuns : List (String × Expr) → Scope → List (String × Run Value)
  | [], _ => []
  | (bound, e) :: rest, scope => (bound, e.eval scope) :: clauseRuns rest scope

end

theorem meanings_eq_map (es : List Expr) : meanings es = es.map eval := by
  induction es with
  | nil => rfl
  | cons e es ih => rw [meanings, ih, List.map_cons]

theorem insertMeanings_eq_map (inserts : List (Nat × Expr)) :
    insertMeanings inserts = inserts.map fun i => (i.1, i.2.eval) := by
  induction inserts with
  | nil => rfl
  | cons i inserts ih => rw [insertMeanings, ih, List.map_cons]

theorem clauseRuns_eq_map (bindings : List (String × Expr)) (scope : Scope) :
    clauseRuns bindings scope = bindings.map fun b => (b.1, b.2.eval scope) := by
  induction bindings with
  | nil => rfl
  | cons b bindings ih => rw [clauseRuns, ih, List.map_cons]

end Expr

end Formulary
