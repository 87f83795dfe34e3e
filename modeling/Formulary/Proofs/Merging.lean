import Formulary.Proofs.Contract
import Formulary.Sorting

/-! Merge sort with a test that runs.

The test may fail, and what it says may depend on the world. `Merged` records which element
went first at each step of a merge, as far as that says something about the order of the two,
whatever the test did besides; `MergeSorted` does so for a whole sort. From the record alone it
follows that no element is lost (`perm`), that the result is in order if the order can be joined
(`pairwise`), and that elements of which neither goes before the other stay in their order
(`filter_eq`). A sort asks only about pairs of elements from different places, the later one
first, so it keeps every contract that the test keeps on these (`Contract.Keeps.mergeSort`). -/
namespace Formulary

variable {α : Type} {S R : α → α → Prop} {before : α → α → Run Bool} {c : Contract}
  {items left right merged sorted : List α} {w w' : World}

/-! ### How lists are merged -/

/-- How two lists may be merged: an element of the right one may go first if it is before that
of the left one by `S`, and one of the left list by `R`. -/
inductive Merged (S R : α → α → Prop) : List α → List α → List α → Prop where
  | onlyRight (right : List α) : Merged S R [] right right
  | onlyLeft (left : List α) : Merged S R left [] left
  | takeRight {a b : α} {left right merged : List α} (h : S b a)
      (hrest : Merged S R (a :: left) right merged) :
      Merged S R (a :: left) (b :: right) (b :: merged)
  | takeLeft {a b : α} {left right merged : List α} (h : R a b)
      (hrest : Merged S R left (b :: right) merged) :
      Merged S R (a :: left) (b :: right) (a :: merged)

namespace Merged

theorem perm (h : Merged S R left right merged) : merged.Perm (left ++ right) := by
  induction h with
  | onlyRight right => exact .refl _
  | onlyLeft left => rw [List.append_nil]
  | takeRight _ _ ih => exact (ih.cons _).trans List.perm_middle.symm
  | takeLeft _ _ ih => exact ih.cons _

theorem pairwise (htrans : ∀ a b c, R a b → R b c → R a c) (hS : ∀ a b, S a b → R a b)
    (h : Merged S R left right merged) (hleft : left.Pairwise R) (hright : right.Pairwise R) :
    merged.Pairwise R := by
  induction h with
  | onlyRight => exact hright
  | onlyLeft => exact hleft
  | @takeRight a b left right merged hba hrest ih =>
    obtain ⟨ha, -⟩ := List.pairwise_cons.1 hleft
    obtain ⟨hb, hright⟩ := List.pairwise_cons.1 hright
    refine List.pairwise_cons.2 ⟨fun c hc => ?_, ih hleft hright⟩
    rcases List.mem_append.1 (hrest.perm.subset hc) with hc | hc
    · rcases List.mem_cons.1 hc with rfl | hc
      · exact hS b c hba
      · exact htrans b a c (hS b a hba) (ha c hc)
    · exact hb c hc
  | @takeLeft a b left right merged hab hrest ih =>
    obtain ⟨ha, hleft⟩ := List.pairwise_cons.1 hleft
    obtain ⟨hb, -⟩ := List.pairwise_cons.1 hright
    refine List.pairwise_cons.2 ⟨fun c hc => ?_, ih hleft hright⟩
    rcases List.mem_append.1 (hrest.perm.subset hc) with hc | hc
    · exact ha c hc
    · rcases List.mem_cons.1 hc with rfl | hc
      · exact hab
      · exact htrans a b c hab (hb c hc)

/-- Elements of which neither is before the other by `S` stay in their order. -/
theorem filter_eq (htrans : ∀ a b c, S a b → R b c → S a c) {p : α → Bool}
    (hp : ∀ a b, S a b → p a = true → p b = false) (h : Merged S R left right merged)
    (hleft : left.Pairwise R) : merged.filter p = left.filter p ++ right.filter p := by
  induction h with
  | onlyRight => rfl
  | onlyLeft left => rw [List.filter_nil, List.append_nil]
  | @takeRight a b left right merged hba hrest ih =>
    rw [List.filter_cons, ih hleft]
    split
    · next hb =>
      -- What is left on the left comes after `b`, and so is none of these elements.
      obtain ⟨ha, -⟩ := List.pairwise_cons.1 hleft
      have hnone : (a :: left).filter p = [] := by
        rw [List.filter_eq_nil_iff]
        refine List.forall_mem_cons.2 ⟨?_, fun c hc => ?_⟩
        · rw [hp b a hba hb]
          exact Bool.false_ne_true
        · rw [hp b c (htrans b a c hba (ha c hc)) hb]
          exact Bool.false_ne_true
      rw [hnone, List.nil_append, List.nil_append, List.filter_cons_of_pos hb]
    · next hb => rw [List.filter_cons_of_neg hb]
  | @takeLeft a b left right merged hab hrest ih =>
    obtain ⟨-, hleft⟩ := List.pairwise_cons.1 hleft
    by_cases ha : p a = true
    · rw [List.filter_cons_of_pos ha, List.filter_cons_of_pos ha, ih hleft, List.cons_append]
    · rw [List.filter_cons_of_neg ha, List.filter_cons_of_neg ha, ih hleft]

end Merged

/-! ### How a list is sorted -/

/-- How a list may be sorted by merging its sorted halves. -/
inductive MergeSorted (S R : α → α → Prop) : List α → List α → Prop where
  | short {items : List α} (h : items.length ≤ 1) : MergeSorted S R items items
  | halves {left right left' right' sorted : List α} (hleft : MergeSorted S R left left')
      (hright : MergeSorted S R right right') (h : Merged S R left' right' sorted) :
      MergeSorted S R (left ++ right) sorted

namespace MergeSorted

theorem perm (h : MergeSorted S R items sorted) : sorted.Perm items := by
  induction h with
  | short => exact .refl _
  | halves _ _ h ihleft ihright => exact h.perm.trans (ihleft.append ihright)

theorem pairwise (htrans : ∀ a b c, R a b → R b c → R a c) (hS : ∀ a b, S a b → R a b)
    (h : MergeSorted S R items sorted) : sorted.Pairwise R := by
  induction h with
  | @short items h =>
    match items, h with
    | [], _ => exact .nil
    | [a], _ => exact List.pairwise_singleton R a
  | halves _ _ h ihleft ihright => exact h.pairwise htrans hS ihleft ihright

theorem filter_eq (htrans : ∀ a b c, R a b → R b c → R a c) (hS : ∀ a b, S a b → R a b)
    (hmixed : ∀ a b c, S a b → R b c → S a c) {p : α → Bool}
    (hp : ∀ a b, S a b → p a = true → p b = false) (h : MergeSorted S R items sorted) :
    sorted.filter p = items.filter p := by
  induction h with
  | short => rfl
  | halves hleft _ h ihleft ihright =>
    rw [h.filter_eq hmixed hp (hleft.pairwise htrans hS), ihleft, ihright, List.filter_append]

end MergeSorted

/-! ### Merging and sorting within a contract -/

theorem merge_nil_right (left : List α) : merge before left [] = pure left := by
  cases left <;> rw [merge]
  exact List.cons_ne_nil _ _

theorem Contract.Keeps.merge (h : ∀ a ∈ left, ∀ b ∈ right,
      c.Keeps (before b a) fun first => if first then S b a else R a b) :
    c.Keeps (merge before left right) (Merged S R left right) := by
  induction left, right using Formulary.merge.induct with
  | case1 right =>
    rw [Formulary.merge]
    exact .pure (.onlyRight right)
  | case2 left =>
    rw [merge_nil_right]
    exact .pure (.onlyLeft left)
  | case3 a left b right ihright ihleft =>
    rw [Formulary.merge]
    refine (h a List.mem_cons_self b List.mem_cons_self).bind fun first hfirst => ?_
    cases first with
    | true =>
      have hrest := ihright fun a ha b hb => h a ha b (List.mem_cons_of_mem _ hb)
      exact hrest.bind fun rest hrest => .pure (.takeRight hfirst hrest)
    | false =>
      have hrest := ihleft fun a ha => h a (List.mem_cons_of_mem _ ha)
      exact hrest.bind fun rest hrest => .pure (.takeLeft hfirst hrest)

theorem mergeSort_of_length_le (h : items.length ≤ 1) :
    mergeSort before items = pure items := by
  rw [mergeSort, if_pos h]

theorem mergeSort_of_lt_length (h : ¬ items.length ≤ 1) :
    mergeSort before items = (do
      let left ← mergeSort before (items.take (items.length / 2))
      let right ← mergeSort before (items.drop (items.length / 2))
      merge before left right) := by
  rw [mergeSort, if_neg h]

/-- A sort asks the test for each element and an earlier one at most. -/
theorem Contract.Keeps.mergeSort (h : items.Pairwise fun a b =>
      c.Keeps (before b a) fun first => if first then S b a else R a b) :
    c.Keeps (mergeSort before items) (MergeSorted S R items) := by
  induction items using Formulary.mergeSort.induct with
  | case1 items hle =>
    rw [mergeSort_of_length_le hle]
    exact .pure (.short hle)
  | case2 items hlt ihleft ihright =>
    obtain ⟨hleft, hright, hacross⟩ :=
      List.pairwise_append.1 ((List.take_append_drop (items.length / 2) items).symm ▸ h)
    rw [mergeSort_of_lt_length hlt]
    refine (ihleft hleft).bind fun left hsortLeft => ?_
    refine (ihright hright).bind fun right hsortRight => ?_
    have hmerge : c.Keeps (Formulary.merge before left right) (Merged S R left right) :=
      .merge fun a ha b hb =>
        hacross a (hsortLeft.perm.subset ha) b (hsortRight.perm.subset hb)
    refine hmerge.mono fun sorted hmerged => ?_
    have hhalves := MergeSorted.halves hsortLeft hsortRight hmerged
    rwa [List.take_append_drop] at hhalves

/-! ### Sorting by an order -/

/-- Whatever the test says of two elements, one of them may stand before the other. -/
def Decides (R : α → α → Prop) (before : α → α → Run Bool) : Prop :=
  ∀ a b first w w', (before a b).run.run w = (.ok first, w') → if first then R a b else R b a

/-- The test succeeds from every world. -/
def Conclusive (before : α → α → Run Bool) (a b : α) : Prop :=
  ∀ w, ∃ first w', (before a b).run.run w = (.ok first, w')

/-- A sort loses no element, and if the order can be joined it brings them in order. -/
theorem mergeSort_spec (hR : Decides R before)
    (h : (mergeSort before items).run.run w = (.ok sorted, w')) :
    sorted.Perm items ∧ ((∀ a b c, R a b → R b c → R a c) → sorted.Pairwise R) := by
  let anyhow : Contract := ⟨fun _ => True, fun _ => True, fun _ _ => True⟩
  have htest (a b : α) : anyhow.Keeps (before b a) fun first => if first then R b a else R a b := by
    intro w _
    rcases hrun : (before b a).run.run w with ⟨_ | first, w'⟩
    · trivial
    · exact ⟨hR b a first w w' hrun, trivial⟩
  have hkeeps : anyhow.Keeps (mergeSort before items) (MergeSorted R R items) :=
    .mergeSort (List.pairwise_of_forall htest)
  obtain ⟨hsorted, -⟩ := hkeeps.of_ok trivial h
  exact ⟨hsorted.perm, fun htrans => hsorted.pairwise htrans fun _ _ => id⟩

/-- A sort succeeds if the test does on each element and an earlier one. -/
theorem mergeSort_succeeds (h : items.Pairwise fun a b => Conclusive before b a) (w : World) :
    ∃ sorted w', (mergeSort before items).run.run w = (.ok sorted, w') := by
  let successful : Contract := ⟨fun _ => True, fun _ => True, fun _ _ => False⟩
  have htest (a b : α) (hab : Conclusive before b a) :
      successful.Keeps (before b a) fun first =>
        if first then (fun _ _ => True) b a else (fun _ _ => True) a b := by
    intro w _
    obtain ⟨first, w', hrun⟩ := hab w
    rw [hrun]
    exact ⟨by cases first <;> trivial, trivial⟩
  have hkeeps := Contract.Keeps.mergeSort (h.imp (htest _ _))
  obtain ⟨sorted, w', hrun, -⟩ := hkeeps.exists_ok trivial fun _ _ => id
  exact ⟨sorted, w', hrun⟩

end Formulary
