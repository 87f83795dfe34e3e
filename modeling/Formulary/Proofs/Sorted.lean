import Formulary.Evaluation
import Formulary.Proofs.Merging
import Formulary.Proofs.Ordering

/-! Sorting by the natural order.

The order is partial and a sort compares only some pairs, but none that has no order escapes
it: a sorted list goes up from each element to the next, so by transitivity any two of its
elements can be compared, and they are those of the list that was sorted. Hence a sort
succeeds just if all pairs can be compared (`Expr.eval_sort`), and as only equal values
compare as equal, its result does not depend on where the elements stood. -/
namespace Formulary

namespace Value

/-- The values compare, as less or equal. -/
def AtMost (a b : Value) : Prop := ∃ o, a.order b = .ok o ∧ o ≠ .gt

/-- The values have an order. -/
def Comparable (a b : Value) : Prop := ∃ o, a.order b = .ok o

theorem AtMost.comparable {a b : Value} (h : a.AtMost b) : a.Comparable b :=
  h.imp fun _ => And.left

theorem atMost_iff_leads {a b : Value} : a.AtMost b ↔ a.Leads .lt b :=
  exists_congr fun o => and_congr_right fun _ => by cases o <;> simp

theorem AtMost.trans {a b c : Value} (hab : a.AtMost b) (hbc : b.AtMost c) : a.AtMost c :=
  atMost_iff_leads.2 ((atMost_iff_leads.1 hab).trans (by decide) (atMost_iff_leads.1 hbc))

theorem AtMost.antisymm {a b : Value} (hab : a.AtMost b) (hba : b.AtMost a) : a = b :=
  (atMost_iff_leads.1 hab).antisymm (by decide) (atMost_iff_leads.1 hba)

theorem Comparable.symm {a b : Value} (h : a.Comparable b) : b.Comparable a := by
  obtain ⟨o, h⟩ := h
  exact ⟨_, (ordered_of_order h).reverse.order_eq⟩

/-- The elements at any two places have an order. -/
theorem pairwise_comparable_iff {items : List Value} : items.Pairwise Comparable ↔
    ∀ (i j : Nat) (hi : i < items.length) (hj : j < items.length), i ≠ j →
      items[i].Comparable items[j] := by
  rw [List.pairwise_iff_getElem]
  constructor
  · intro h i j hi hj hne
    rcases Nat.lt_or_gt_of_ne hne with hlt | hlt
    · exact h i j hi hj hlt
    · exact (h j i hj hi hlt).symm
  · exact fun h i j hi hj hlt => h i j hi hj (Nat.ne_of_lt hlt)

end Value

/-! ### The test -/

namespace Builtin

theorem run_precedes {a b : Value} {o : Ordering} (h : a.order b = .ok o) (w : World) :
    (precedes a b).run.run w = (.ok (o == .lt), w) := by
  rw [precedes, h]
  rfl

theorem order_of_precedes {a b : Value} {first : Bool} {w w' : World}
    (h : (precedes a b).run.run w = (.ok first, w')) :
    ∃ o, a.order b = .ok o ∧ first = (o == .lt) := by
  cases ho : a.order b with
  | ok o =>
    rw [run_precedes ho] at h
    exact ⟨o, rfl, by cases h; rfl⟩
  | error e =>
    rw [precedes, ho] at h
    cases h

theorem decides_precedes : Decides Value.AtMost precedes := by
  intro a b first w w' h
  obtain ⟨o, ho, rfl⟩ := order_of_precedes h
  cases o with
  | lt => exact ⟨.lt, ho, by decide⟩
  | eq => exact ⟨.eq, (Value.ordered_of_order ho).reverse.order_eq, by decide⟩
  | gt => exact ⟨.lt, (Value.ordered_of_order ho).reverse.order_eq, by decide⟩

theorem conclusive_precedes {a b : Value} (h : a.Comparable b) : Conclusive precedes b a := by
  obtain ⟨o, ho⟩ := h.symm
  exact fun w => ⟨_, w, run_precedes ho w⟩

end Builtin

/-! ### The sort -/

open Builtin

variable {items sorted : List Value} {w w' : World}

theorem sorted_of_mergeSort (h : (mergeSort precedes items).run.run w = (.ok sorted, w')) :
    sorted.Perm items ∧ sorted.Pairwise Value.AtMost := by
  obtain ⟨hperm, hsorted⟩ := mergeSort_spec decides_precedes h
  exact ⟨hperm, hsorted fun _ _ _ => Value.AtMost.trans⟩

theorem mergeSort_succeeds_iff (w : World) :
    (∃ sorted w', (mergeSort precedes items).run.run w = (.ok sorted, w')) ↔
      items.Pairwise Value.Comparable := by
  constructor
  · rintro ⟨sorted, w', h⟩
    -- Not all pairs were compared, but all are in order in the result.
    obtain ⟨hperm, hsorted⟩ := sorted_of_mergeSort h
    exact hperm.pairwise (hsorted.imp Value.AtMost.comparable) Value.Comparable.symm
  · exact fun h => mergeSort_succeeds (h.imp conclusive_precedes) w

/-- The order of the elements makes no difference. -/
theorem mergeSort_eq_of_perm {items' : List Value} (hperm : items'.Perm items) (v : World)
    (h : (mergeSort precedes items).run.run w = (.ok sorted, w')) :
    ∃ v', (mergeSort precedes items').run.run v = (.ok sorted, v') := by
  have hcomparable := (mergeSort_succeeds_iff w).1 ⟨sorted, w', h⟩
  obtain ⟨sorted', v', h'⟩ :=
    (mergeSort_succeeds_iff v).2 (hperm.symm.pairwise hcomparable Value.Comparable.symm)
  obtain ⟨hpermSorted, hsorted⟩ := sorted_of_mergeSort h
  obtain ⟨hpermSorted', hsorted'⟩ := sorted_of_mergeSort h'
  have hsameItems := hpermSorted'.trans (hperm.trans hpermSorted.symm)
  have hsame : sorted' = sorted :=
    hsameItems.eq_of_pairwise (fun _ _ _ _ => Value.AtMost.antisymm) hsorted' hsorted
  exact ⟨v', hsame ▸ h'⟩

/-! ### Calls of sort -/

/-- What a function does with a list, once its argument has come to one. -/
theorem Builtin.run_listArgument_bind (f : Builtin) {m : Meaning} {scope : Scope}
    (h : (m scope).run.run w = (.ok (.list items), w')) (body : List Value → Run Value) :
    (f.listArgument m scope >>= body).run.run w = (body items).run.run w' := by
  rw [listArgument, bind_assoc, Run.run_bind, h]
  rfl

namespace Expr

variable {e : Expr} {scope : Scope}

theorem run_sort (he : (e.eval scope).run.run w = (.ok (.list items), w')) :
    ((call .sort [e]).eval scope).run.run w =
      (.list <$> mergeSort precedes items : Run Value).run.run w' :=
  run_listArgument_bind .sort he fun items => .list <$> mergeSort precedes items

theorem sort_eq_ok_iff (he : (e.eval scope).run.run w = (.ok (.list items), w')) {v : Value} :
    (((call .sort [e]).eval scope).run.run w).1 = .ok v ↔ ∃ sorted w'',
      (mergeSort precedes items).run.run w' = (.ok sorted, w'') ∧ v = .list sorted := by
  rw [run_sort he]
  constructor
  · intro h
    obtain ⟨sorted, hsort, hv⟩ := Run.map_eq_ok_iff.1 (Prod.ext h rfl)
    exact ⟨sorted, _, hsort, hv⟩
  · intro ⟨sorted, w'', hsort, hv⟩
    exact congrArg Prod.fst (Run.map_eq_ok_iff.2 ⟨sorted, hsort, hv⟩)

/-- **Sorting by the natural order.** A sort succeeds just if the elements at any two places
can be compared. Then it gives the same elements, each at most every later one, and it gives
the same for the elements in any other order. -/
theorem eval_sort (he : (e.eval scope).run.run w = (.ok (.list items), w')) :
    let outcome := (((call .sort [e]).eval scope).run.run w).1
    ((∃ v, outcome = .ok v) ↔ ∀ (i j : Nat) (hi : i < items.length) (hj : j < items.length),
        i ≠ j → items[i].Comparable items[j]) ∧
      (∀ v, outcome = .ok v →
        ∃ sorted, v = .list sorted ∧ sorted.Perm items ∧ sorted.Pairwise Value.AtMost) ∧
      ∀ (e' : Expr) (scope' : Scope) (v v' : World) (items' : List Value), items'.Perm items →
        (e'.eval scope').run.run v = (.ok (.list items'), v') →
        ∀ u, (((call .sort [e']).eval scope').run.run v).1 = .ok u ↔ outcome = .ok u := by
  intro outcome
  refine ⟨?_, fun v hv => ?_, fun e' scope' v v' items' hperm he' u => ?_⟩
  · rw [← Value.pairwise_comparable_iff, ← mergeSort_succeeds_iff w']
    simp only [outcome, sort_eq_ok_iff he]
    exact ⟨fun ⟨_, sorted, w'', h, _⟩ => ⟨sorted, w'', h⟩,
      fun ⟨sorted, w'', h⟩ => ⟨_, sorted, w'', h, rfl⟩⟩
  · obtain ⟨sorted, w'', h, rfl⟩ := (sort_eq_ok_iff he).1 hv
    exact ⟨sorted, rfl, sorted_of_mergeSort h⟩
  · rw [sort_eq_ok_iff he', sort_eq_ok_iff he]
    constructor
    · rintro ⟨sorted, w'', h, rfl⟩
      obtain ⟨w₁, h⟩ := mergeSort_eq_of_perm hperm.symm w' h
      exact ⟨sorted, w₁, h, rfl⟩
    · rintro ⟨sorted, w'', h, rfl⟩
      obtain ⟨w₁, h⟩ := mergeSort_eq_of_perm hperm v' h
      exact ⟨sorted, w₁, h, rfl⟩

/-- Lists of different lengths, one of them with an object that no comparison gets to. -/
theorem eval_sort_around_object :
    let scope : Scope := .object (.layer [("o", .object 0 .nothing)] .nothing)
    let three : Expr := .list [.integer 3]
    let one : Expr := .list [.integer 1]
    let oneAndObject : Expr := .list [.integer 1, .name "o"]
    let w := World.fresh (.ofWords fun _ => 0) fun _ _ => .ok .missing
    ∃ items sorted : List Value,
      ((list [three, oneAndObject, one]).eval scope).run.run w = (.ok (.list items), w) ∧
      (((call .sort [.list [three, oneAndObject, one]]).eval scope).run.run w).1 =
        .ok (.list sorted) ∧
      (((call .sort [.list [oneAndObject, one, three]]).eval scope).run.run w).1 =
        .ok (.list sorted) ∧
      sorted.Perm items ∧ sorted.Pairwise Value.AtMost := by
  intro scope three one oneAndObject w
  let three' : Value := .list [.integer 3]
  let one' : Value := .list [.integer 1]
  let oneAndObject' : Value := .list [.integer 1, .object 0 .nothing]
  have he : ((list [three, oneAndObject, one]).eval scope).run.run w =
      (.ok (.list [three', oneAndObject', one']), w) := rfl
  have he' : ((list [oneAndObject, one, three]).eval scope).run.run w =
      (.ok (.list [oneAndObject', one', three']), w) := rfl
  have hpairs : [three', oneAndObject', one'].Pairwise Value.Comparable := by
    refine List.pairwise_cons.2 ⟨?_, List.pairwise_pair.2 ⟨.gt, rfl⟩⟩
    exact List.forall_mem_cons.2 ⟨⟨.gt, rfl⟩, List.forall_mem_singleton.2 ⟨.gt, rfl⟩⟩
  have hperm : ([oneAndObject', one'] ++ [three']).Perm ([three'] ++ [oneAndObject', one']) :=
    List.perm_append_comm
  obtain ⟨hsucceeds, hsorted, hsame⟩ := eval_sort he
  obtain ⟨v, hv⟩ := hsucceeds.2 (Value.pairwise_comparable_iff.1 hpairs)
  obtain ⟨sorted, rfl, hspec⟩ := hsorted v hv
  exact ⟨_, sorted, he, hv, (hsame _ _ _ _ _ hperm he' _).2 hv, hspec⟩

end Expr

end Formulary
