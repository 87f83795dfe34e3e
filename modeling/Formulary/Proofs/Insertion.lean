import Formulary.Evaluation
import Formulary.Proofs.WellFormed

/-! Putting values into texts.

`Expr.evalChecked` is evaluation that fails wherever a value would go into a text off a
character boundary of the text as it stands then. On well-formed trees it is plain
evaluation (`evalChecked_eq`): what goes in goes in at a boundary, however long the values
put in behind it have made the text. -/
namespace Formulary

/-! ### Checked evaluation -/

/-- `splice`, with a check before each insertion. -/
def spliceChecked (refusal : EvalError) (inserts : List (Nat × Meaning)) (scope : Scope)
    (text : String) : Run String :=
  inserts.foldlM (fun text insert => do
    let v ← insert.2 scope
    if Text.IsBoundary insert.1 text then pure (Text.insertAt insert.1 v.display text)
    else throw refusal) text

namespace Expr

section
variable (refusal : EvalError)

mutual

/-- Evaluation that fails with `refusal` before an insertion off a character boundary. -/
def evalChecked : Expr → Meaning
  | integer n, _ => pure (.integer n)
  | text s inserts, scope =>
    .text <$> spliceChecked refusal (insertMeaningsChecked inserts) scope s
  | list items, scope => .list <$> (meaningsChecked items).mapM (· scope)
  | name n, scope => scope.query n
  | unary op operand, scope => do
    let v ← operand.evalChecked scope
    op.apply v
  | binary op left right, scope => do
    let a ← left.evalChecked scope
    let b ← right.evalChecked scope
    op.apply a b
  | member subject selector, scope => do
    let v ← subject.evalChecked scope
    selectMember v selector.evalChecked scope
  | call f arguments, scope => f.apply (meaningsChecked arguments) scope
  | clauses body bindings, scope => do
    let inner ← Scope.openClauses (clauseRunsChecked bindings scope) scope
    body.evalChecked inner

def meaningsChecked : List Expr → List Meaning
  | [] => []
  | e :: rest => e.evalChecked :: meaningsChecked rest

def insertMeaningsChecked : List (Nat × Expr) → List (Nat × Meaning)
  | [] => []
  | (position, e) :: rest => (position, e.evalChecked) :: insertMeaningsChecked rest

def clauseRunsChecked : List (String × Expr) → Scope → List (String × Run Value)
  | [], _ => []
  | (bound, e) :: rest, scope => (bound, e.evalChecked scope) :: clauseRunsChecked rest scope

end

end

end Expr

/-! ### Nothing is refused -/

/-- Positions that do not ascend, all of them boundaries of the text, stay boundaries while
values go in one after the other. -/
theorem spliceChecked_eq (refusal : EvalError) {inserts : List (Nat × Meaning)} (scope : Scope)
    {text : String} (hsorted : (inserts.map Prod.fst).Pairwise fun a b => b ≤ a)
    (hboundary : ∀ i ∈ inserts, Text.IsBoundary i.1 text) :
    spliceChecked refusal inserts scope text = splice inserts scope text := by
  induction inserts generalizing text with
  | nil => rfl
  | cons insert inserts ih =>
    rw [List.map_cons, List.pairwise_cons] at hsorted
    obtain ⟨hfirst, hrest⟩ := List.forall_mem_cons.1 hboundary
    unfold spliceChecked splice at ih ⊢
    simp only [List.foldlM_cons, bind_assoc, pure_bind, if_pos hfirst]
    congr 1
    funext v
    refine ih hsorted.2 fun i hi => ?_
    have hle : i.1 ≤ insert.1 := hsorted.1 i.1 (List.mem_map_of_mem hi)
    exact hfirst.insertAt (hrest i hi) hle v.display

namespace Expr

variable {refusal : EvalError}

theorem meaningsChecked_eq {es : List Expr} (h : ∀ e ∈ es, e.evalChecked refusal = e.eval) :
    meaningsChecked refusal es = meanings es := by
  induction es with
  | nil => rfl
  | cons e es ih =>
    obtain ⟨he, hes⟩ := List.forall_mem_cons.1 h
    rw [meaningsChecked, meanings, he, ih hes]

theorem insertMeaningsChecked_eq {inserts : List (Nat × Expr)}
    (h : ∀ i ∈ inserts, i.2.evalChecked refusal = i.2.eval) :
    insertMeaningsChecked refusal inserts = insertMeanings inserts := by
  induction inserts with
  | nil => rfl
  | cons i inserts ih =>
    obtain ⟨hi, his⟩ := List.forall_mem_cons.1 h
    rw [insertMeaningsChecked, insertMeanings, hi, ih his]

theorem clauseRunsChecked_eq {bindings : List (String × Expr)}
    (h : ∀ b ∈ bindings, b.2.evalChecked refusal = b.2.eval) (scope : Scope) :
    clauseRunsChecked refusal bindings scope = clauseRuns bindings scope := by
  induction bindings with
  | nil => rfl
  | cons b bindings ih =>
    obtain ⟨hb, hbs⟩ := List.forall_mem_cons.1 h
    rw [clauseRunsChecked, clauseRuns, hb, ih hbs]

theorem evalChecked_eq {e : Expr} (h : e.WellFormed) : e.evalChecked refusal = e.eval := by
  induction h with
  | integer | name => rfl
  | text hsorted hboundary _ ih =>
    funext scope
    rw [evalChecked, eval, insertMeaningsChecked_eq ih, insertMeanings_eq_map, spliceChecked_eq]
    · rw [List.map_map]
      exact hsorted
    · exact List.forall_mem_map.2 fun i hi => (hboundary i hi).2
  | list _ ih =>
    funext scope
    rw [evalChecked, eval, meaningsChecked_eq ih]
  | unary _ ih =>
    funext scope
    rw [evalChecked, eval, ih]
  | binary _ _ ihl ihr =>
    funext scope
    rw [evalChecked, eval, ihl, ihr]
  | member _ _ ihs ih =>
    funext scope
    rw [evalChecked, eval, ihs, ih]
  | call _ _ ih =>
    funext scope
    rw [evalChecked, eval, meaningsChecked_eq ih]
  | clauses _ _ _ _ _ ihbody ih =>
    funext scope
    rw [evalChecked, eval, clauseRunsChecked_eq ih, ihbody]

end Expr

end Formulary
