/-! Sorting by a test that may fail.

`mergeSort` halves a list, sorts the halves from left to right and merges them. The test
says whether its first argument comes before its second; it is a computation, so it can
fail or have effects, and it is asked in a fixed order. Of two elements neither of which
comes before the other the earlier one stays earlier. -/
namespace Formulary

variable {α : Type} {m : Type → Type} [Monad m]

/-- Merge two lists. An element of the right list goes first only if it comes before the
left one. -/
def merge (before : α → α → m Bool) : List α → List α → m (List α)
  | [], right => pure right
  | left, [] => pure left
  | a :: left, b :: right => do
    if ← before b a then
      let merged ← merge before (a :: left) right
      pure (b :: merged)
    else
      let merged ← merge before left (b :: right)
      pure (a :: merged)
termination_by left right => left.length + right.length

def mergeSort (before : α → α → m Bool) (items : List α) : m (List α) :=
  if items.length ≤ 1 then pure items
  else do
    let left ← mergeSort before (items.take (items.length / 2))
    let right ← mergeSort before (items.drop (items.length / 2))
    merge before left right
termination_by items.length
decreasing_by
  all_goals
    simp only [List.length_take, List.length_drop]
    omega

end Formulary
