import Formulary.Evaluation
import Formulary.Proofs.Except
import Formulary.Proofs.Stepwise

/-! The steps of operators.

Views, comparisons and operators fail in many ways, but never by a wrong count of arguments
(`Ordinary`), and what they return is made of what they are given. So they are stepwise by
all means that are closed. -/
namespace Formulary

/-- A result that is no error of a wrong count of arguments. -/
def Ordinary {α : Type} (x : Except EvalError α) : Prop :=
  ∀ e, x = .error e → e.isArgumentCount = false

/-! ### Views and comparisons -/

section
variable {α β : Type} {x : Except EvalError α} {f : α → Except EvalError β} {a : α}

theorem ordinary_ok : Ordinary (.ok a : Except EvalError α) := fun _ h => nomatch h

theorem ordinary_error {e : EvalError} (h : e.isArgumentCount = false) :
    Ordinary (.error e : Except EvalError α) :=
  fun _ he => Except.error.inj he ▸ h

theorem Ordinary.bind (h : Ordinary x) (hf : ∀ a, x = .ok a → Ordinary (f a)) :
    Ordinary (x >>= f) := by
  cases x with
  | error e => exact fun e' he => h e' (congrArg Except.error (Except.error.inj he))
  | ok a => exact hf a rfl

theorem ordinary_asInteger (v : Value) (place : Place) : Ordinary (v.asInteger place) := by
  cases v <;> first | exact ordinary_ok | exact ordinary_error rfl

theorem ordinary_asList (v : Value) (place : Place) : Ordinary (v.asList place) := by
  cases v <;> first | exact ordinary_ok | exact ordinary_error rfl

theorem ordinary_truth (v : Value) : Ordinary v.truth :=
  (ordinary_asInteger v .condition).bind fun _ _ => ordinary_ok

theorem ordinary_element (v : Value) (index : Int64) : Ordinary (v.element index) := by
  refine (ordinary_asList v .listOperand).bind fun items _ => ?_
  simp only
  split
  · exact ordinary_error rfl
  · split
    · exact ordinary_ok
    · exact ordinary_error rfl

theorem list_of_element {v item : Value} {index : Int64} (h : v.element index = .ok item) :
    ∃ items, v = .list items ∧ item ∈ items := by
  cases v with
  | list items =>
    refine ⟨items, rfl, ?_⟩
    obtain ⟨items', hitems, h⟩ := bind_eq_ok_iff.1 h
    obtain rfl := Except.ok.inj hitems
    simp only at h
    split at h
    · cases h
    · split at h
      · next found hfound => exact Except.ok.inj h ▸ List.mem_of_getElem? hfound
      · cases h
  | integer | text | object => cases h

mutual

theorem ordinary_order (a b : Value) : Ordinary (a.order b) := by
  unfold Value.order
  split
  · exact ordinary_ok
  · exact ordinary_ok
  · exact ordinary_orderItems _ _
  · split <;> exact ordinary_error rfl

theorem ordinary_orderItems (as bs : List Value) : Ordinary (Value.orderItems as bs) := by
  unfold Value.orderItems
  split
  · exact ordinary_ok
  · exact ordinary_ok
  · exact ordinary_ok
  · split
    · exact ordinary_orderItems _ _
    · exact ordinary_order _ _

end

mutual

theorem ordinary_equals (a b : Value) : Ordinary (a.equals b) := by
  unfold Value.equals
  split
  · exact ordinary_ok
  · exact ordinary_ok
  · split
    · exact ordinary_equalItems _ _
    · exact ordinary_ok
  · exact ordinary_ok
  · exact ordinary_error rfl

theorem ordinary_equalItems (as bs : List Value) : Ordinary (Value.equalItems as bs) := by
  unfold Value.equalItems
  split
  · split
    · exact ordinary_equalItems _ _
    · exact ordinary_equals _ _
  · exact ordinary_ok

end

end

/-! ### Steps -/

namespace Means.Closed

variable {A : Means} {α : Type} (hA : A.Closed)
include hA

theorem missing : A.value .missing := hA.integer 0

theorem ofBool (b : Bool) : A.value (.ofBool b) := hA.integer _

theorem throws {e : EvalError} {post : α → Prop} (he : e.isArgumentCount = false) :
    Stepwise A (fun _ => throw e : Scope → Run α) post :=
  .fail (hA.fail e he)

theorem ofExcept {x : Except EvalError α} {post : α → Prop} (hx : Ordinary x)
    (hok : ∀ a, x = .ok a → post a) : Stepwise A (fun _ => Run.ofExcept x) post :=
  .ofExcept hok fun e he => hA.fail e (hx e he)

theorem narrow (what : Computation) (n : Int) :
    Stepwise A (fun _ => Run.narrow what n) fun _ => True := by
  unfold Run.narrow
  split
  · exact .pure trivial
  · exact hA.throws rfl

theorem truth (v : Value) : Stepwise A (fun _ => Run.ofExcept v.truth) fun _ => True :=
  hA.ofExcept (ordinary_truth v) fun _ _ => trivial

theorem asInteger (v : Value) (place : Place) :
    Stepwise A (fun _ => Run.ofExcept (v.asInteger place)) fun _ => True :=
  hA.ofExcept (ordinary_asInteger v place) fun _ _ => trivial

theorem order (a b : Value) : Stepwise A (fun _ => Run.ofExcept (a.order b)) fun _ => True :=
  hA.ofExcept (ordinary_order a b) fun _ _ => trivial

theorem equals (a b : Value) : Stepwise A (fun _ => Run.ofExcept (a.equals b)) fun _ => True :=
  hA.ofExcept (ordinary_equals a b) fun _ _ => trivial

/-! ### Operators -/

theorem unary (op : UnaryOp) (v : Value) : Stepwise A (fun _ => op.apply v) A.value := by
  cases op with
  | not => exact (hA.truth v).bind fun b _ => .pure (hA.ofBool _)
  | negate =>
    exact (hA.asInteger v _).bind fun n _ => (hA.narrow _ _).map fun n _ => hA.integer n

theorem operands (op : BinaryOp) (left right : Value) :
    Stepwise A (fun _ => op.operands left right) fun _ => True :=
  (hA.asInteger left _).bind fun _ _ => (hA.asInteger right _).bind fun _ _ => .pure trivial

theorem arithmetic (op : BinaryOp) (f : Int → Int → Int) (left right : Value) :
    Stepwise A (fun _ => op.arithmetic f left right) A.value :=
  (hA.operands op left right).bind fun _ _ => (hA.narrow _ _).map fun n _ => hA.integer n

theorem division (op : BinaryOp) (left right : Value) :
    Stepwise A (fun _ => op.division left right) fun _ => True := by
  refine (hA.operands op left right).bind fun (a, b) _ => ?_
  have hzero : Stepwise A (fun _ => throw .divisionByZero : Scope → Run PUnit) fun _ => False :=
    hA.throws rfl
  simp only
  split
  · exact hzero.bind fun _ h => h.elim
  · exact (hA.narrow _ _).bind fun _ _ => (hA.narrow _ _).bind fun _ _ => .pure trivial

theorem comparison (test : Ordering → Bool) (left right : Value) :
    Stepwise A (fun _ => BinaryOp.comparison test left right) A.value :=
  (hA.order left right).bind fun _ _ => .pure (hA.ofBool _)

theorem powerOf (base exponent : Int64) :
    Stepwise A (fun _ => Formulary.powerOf base exponent) fun _ => True := by
  unfold Formulary.powerOf
  simp only
  split
  · split
    · exact .pure trivial
    · exact hA.throws rfl
  · split
    · exact hA.throws rfl
    · split
      · exact .pure trivial
      · split <;> exact .pure trivial

theorem binary (op : BinaryOp) (hop : A.operator op) (left right : Value) :
    Stepwise A (fun _ => op.apply left right) A.value := by
  cases op with
  | or | and =>
    exact (hA.truth left).bind fun _ _ => (hA.truth right).bind fun _ _ => .pure (hA.ofBool _)
  | equal | notEqual => exact (hA.equals left right).bind fun _ _ => .pure (hA.ofBool _)
  | less | greater | lessEqual | greaterEqual => exact hA.comparison _ left right
  | add | subtract | multiply => exact hA.arithmetic _ _ left right
  | divide | modulo => exact (hA.division _ left right).bind fun _ _ => .pure (hA.integer _)
  | power =>
    exact (hA.operands _ left right).bind fun _ _ =>
      (hA.powerOf _ _).map fun n _ => hA.integer n
  | dice =>
    exact (hA.operands _ left right).bind fun _ _ =>
      (Stepwise.roll hop).map fun n _ => hA.integer n

theorem element {v : Value} (hv : A.value v) (index : Int64) :
    Stepwise A (fun _ => Run.ofExcept (v.element index)) A.value := by
  refine hA.ofExcept (ordinary_element v index) fun item h => ?_
  obtain ⟨items, rfl, hmem⟩ := list_of_element h
  exact (hA.list items).1 hv item hmem

theorem selectMember {subject : Value} {selector : Meaning} (hv : A.value subject)
    (hm : Stepwise A selector A.value) :
    Stepwise A (Formulary.selectMember subject selector) A.value := by
  cases subject with
  | list items =>
    exact hm.bind fun v _ => (hA.asInteger v _).bind fun index _ => hA.element hv index
  | object identity o => exact hm.inside fun n => .query hA ((hA.reference _ _).1 hv) n
  | integer | text => exact hA.throws rfl

end Means.Closed

end Formulary
