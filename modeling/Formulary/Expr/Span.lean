import Formulary.Operator
import Formulary.Token.Nesting

/-! The outermost form of a token span.

A span is cut at its loosest operator outside brackets. Of several in the loosest
band the rightmost is taken, so that chains group to the left (`10 - 3 - 2` is
`(10 - 3) - 2`); of several `^` the leftmost, so that these group to the right. An
operator counts only where an operand can end before it, which tells a leading `-`
from a subtraction. `Shape.of` names the form found and the spans inside it; each is
shorter than the whole (`Shape.smaller`). -/
namespace Formulary

namespace Token

def isOperator (t : Token) : Bool :=
  match t.kind with
  | .operator => true
  | .word => isWordOperator t.text
  | _ => false

/-- How tightly an operator token binds; one with an unknown spelling binds tightest. -/
def strength (t : Token) : Nat :=
  (precedence? t.text).getD 255

/-- Whether the token can be the last of an operand, as far as it alone can tell. -/
def endsOperand (t : Token) : Bool :=
  !(t.isOperator || t.opens || t.kind = .comma)

end Token

/-! ### Cutting at the loosest operator -/

/-- The operators outside brackets that have an operand on their left, with their
positions in the span. The arguments before the span are the token before it, the
brackets open there and its position. -/
def candidates : Option Token → Nat → Nat → List Token → List (Nat × Token)
  | _, _, _, [] => []
  | before, depth, position, t :: rest =>
    if t.opens then candidates (some t) (depth + 1) (position + 1) rest
    else if t.closes then candidates (some t) (depth - 1) (position + 1) rest
    else if depth = 0 && t.isOperator && before.any Token.endsOperand then
      (position, t) :: candidates (some t) depth (position + 1) rest
    else candidates (some t) depth (position + 1) rest

/-- The looser of two operators, the second standing to the right of the first. -/
def looser (left right : Nat × Token) : Nat × Token :=
  if right.2.strength < left.2.strength then right
  else if right.2.strength = left.2.strength && !groupsRight right.2.text then right
  else left

/-- The operator to cut a span at. -/
def splitPoint (span : List Token) : Option (Nat × Token) :=
  match candidates none 0 0 span with
  | [] => none
  | first :: others => some (others.foldl looser first)

/-! ### Forms -/

/-- The outermost form of a span. -/
inductive Shape where
  | empty
  /-- An operator and the span it applies to. -/
  | unary (op : Token) (operand : List Token)
  | binary (left : List Token) (op : Token) (right : List Token)
  /-- A single token. -/
  | atom (t : Token)
  | group (inner : List Token)
  | list (inner : List Token)
  | call (name : Token) (arguments : List Token)
  /-- None of these. -/
  | other
  deriving DecidableEq, Repr

/-- The form of a span without operators to cut at. -/
def Shape.primary (first : Token) (rest : List Token) : Shape :=
  if rest.isEmpty then .atom first
  else if first.opens && closesAtEnd 0 (first :: rest) then
    if first.kind = .openParen then .group rest.dropLast else .list rest.dropLast
  else match rest with
    | bracket :: inner =>
      if first.kind = .word && bracket.kind = .openParen && closesAtEnd 0 rest then
        .call first inner.dropLast
      else .other
    | [] => .other

def Shape.of : List Token → Shape
  | [] => .empty
  | first :: rest =>
    match splitPoint (first :: rest) with
    | some (position, op) =>
      if first.isOperator && first.strength < op.strength then .unary first rest
      else .binary ((first :: rest).take position) op ((first :: rest).drop (position + 1))
    | none => if first.isOperator then .unary first rest else .primary first rest

/-- The sizes of the spans inside a form, as far as reading them needs a bound: a
list of parts counts one for each part beside its tokens. -/
def Shape.Within (n : Nat) : Shape → Prop
  | .unary _ operand => operand.length < n
  | .binary left _ right => left.length < n ∧ right.length + 1 < n
  | .group inner => inner.length < n
  | .list inner => inner.length + 1 < n
  | .call _ arguments => arguments.length + 1 < n
  | _ => True

theorem candidates_position {before : Option Token} {depth start : Nat} {span : List Token}
    {c : Nat × Token} (h : c ∈ candidates before depth start span) :
    start ≤ c.1 ∧ c.1 < start + span.length ∧ (before = none → start < c.1) := by
  fun_induction candidates before depth start span with
  | case1 => cases h
  | case2 before depth start t rest _ ih => have := ih h; simp at this ⊢; omega
  | case3 before depth start t rest _ _ ih => have := ih h; simp at this ⊢; omega
  | case4 before depth start t rest _ _ hb ih =>
    rcases List.mem_cons.1 h with rfl | h
    · refine ⟨Nat.le_refl _, by simp, ?_⟩
      rintro rfl
      simp at hb
    · have := ih h
      simp at this ⊢
      omega
  | case5 before depth start t rest _ _ _ ih => have := ih h; simp at this ⊢; omega

theorem looser_eq (a b : Nat × Token) : looser a b = a ∨ looser a b = b := by
  unfold looser
  split
  · exact .inr rfl
  · split
    · exact .inr rfl
    · exact .inl rfl

theorem foldl_looser_mem (first : Nat × Token) (others : List (Nat × Token)) :
    others.foldl looser first ∈ first :: others := by
  induction others generalizing first with
  | nil => exact List.mem_singleton_self _
  | cons b others ih =>
    rcases List.mem_cons.1 (ih (looser first b)) with h | h
    · rw [List.foldl_cons, h]
      rcases looser_eq first b with h | h <;> simp [h]
    · exact List.mem_cons_of_mem _ (List.mem_cons_of_mem _ h)

/-- A span is cut at one of its candidates. -/
theorem splitPoint_mem {span : List Token} {c : Nat × Token} (h : splitPoint span = some c) :
    c ∈ candidates none 0 0 span := by
  unfold splitPoint at h
  split at h
  · cases h
  · next first others heq =>
    rw [heq, ← Option.some.inj h]
    exact foldl_looser_mem first others

/-- The spans inside a form are shorter than the whole. -/
theorem Shape.within_of (span : List Token) : (Shape.of span).Within span.length := by
  unfold Shape.of
  split
  · trivial
  · next first rest =>
    have hunary : (Shape.unary first rest).Within (first :: rest).length := by simp [Within]
    split
    · next position op h =>
      split
      · exact hunary
      · obtain ⟨-, hlt, hpos⟩ := candidates_position (splitPoint_mem h)
        have := hpos rfl
        simp only [Within, List.length_take, List.length_drop, List.length_cons] at *
        omega
    · split
      · exact hunary
      · unfold primary
        split
        · trivial
        · next hne =>
          have : rest.length ≠ 0 := by simpa using hne
          split
          · split <;> (simp only [Within, List.length_dropLast, List.length_cons]; omega)
          · split
            · split
              · simp only [Within, List.length_dropLast, List.length_cons]; omega
              · trivial
            · trivial

end Formulary
