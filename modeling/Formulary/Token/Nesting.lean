import Formulary.Token

/-! Brackets: parentheses and square brackets, each closed by its own kind.

`firstUnmatched` reads a token list once, holding the brackets still open, the
innermost first. It blames the first closing bracket that does not close the
innermost open one, and if there is none, the innermost bracket left open. -/
namespace Formulary

/-- The opening bracket that a closing bracket needs. -/
def TokenKind.partner : TokenKind → TokenKind
  | .closeParen => .openParen
  | _ => .openBracket

def firstUnmatched : List Token → List Token → Option Token
  | openBrackets, [] => openBrackets.head?
  | openBrackets, t :: rest =>
    if t.opens then firstUnmatched (t :: openBrackets) rest
    else if t.closes then
      match openBrackets with
      | b :: outer => if b.kind = t.kind.partner then firstUnmatched outer rest else some t
      | [] => some t
    else firstUnmatched openBrackets rest

/-- Whether the bracket that opens the span is closed by its last token. The first
argument counts the brackets open before the span. -/
def closesAtEnd : Nat → List Token → Bool
  | _, [] => false
  | depth, t :: rest =>
    if t.opens then closesAtEnd (depth + 1) rest
    else if t.closes then
      if depth = 1 then rest.isEmpty else closesAtEnd (depth - 1) rest
    else closesAtEnd depth rest

/-- The parts of a span between its commas outside brackets; one part if there is no
comma. -/
def splitCommas : Nat → List Token → List (List Token)
  | _, [] => [[]]
  | depth, t :: rest =>
    if t.opens then consFirst t (splitCommas (depth + 1) rest)
    else if t.closes then consFirst t (splitCommas (depth - 1) rest)
    else if depth = 0 && t.kind = .comma then [] :: splitCommas depth rest
    else consFirst t (splitCommas depth rest)
where
  /-- Put a token in front of the first part. -/
  consFirst (t : Token) : List (List Token) → List (List Token)
    | [] => [[t]]
    | part :: parts => (t :: part) :: parts

theorem splitCommas_ne_nil (depth : Nat) (span : List Token) : splitCommas depth span ≠ [] := by
  have hcons (t : Token) : ∀ parts, splitCommas.consFirst t parts ≠ []
    | [] => List.cons_ne_nil _ _
    | _ :: _ => List.cons_ne_nil _ _
  unfold splitCommas
  split
  · exact List.cons_ne_nil _ _
  · split
    · exact hcons _ _
    · split
      · exact hcons _ _
      · split
        · exact List.cons_ne_nil _ _
        · exact hcons _ _

/-- The tokens in a list of spans, and one more for each span: a bound on the work left. -/
def partsSize : List (List Token) → Nat
  | [] => 0
  | part :: parts => part.length + 1 + partsSize parts

/-- The tokens in all parts, and a comma between neighbours, are the span. -/
theorem splitCommas_size (depth : Nat) (span : List Token) :
    partsSize (splitCommas depth span) = span.length + 1 := by
  have hcons (t : Token) (parts : List (List Token)) (h : parts ≠ []) :
      partsSize (splitCommas.consFirst t parts) = partsSize parts + 1 := by
    cases parts with
    | nil => exact absurd rfl h
    | cons part parts => simp [splitCommas.consFirst, partsSize]; omega
  fun_induction splitCommas depth span with
  | case1 => rfl
  | case2 depth t rest _ ih => rw [hcons _ _ (splitCommas_ne_nil _ _), ih]; rfl
  | case3 depth t rest _ _ ih => rw [hcons _ _ (splitCommas_ne_nil _ _), ih]; rfl
  | case4 depth t rest _ _ _ ih => simp only [partsSize, List.length_nil, List.length_cons, ih]; omega
  | case5 depth t rest _ _ _ ih => rw [hcons _ _ (splitCommas_ne_nil _ _), ih]; rfl

end Formulary
