import Formulary.Expr.Span
import Formulary.Proofs.Nesting
import Mathlib.Data.List.Induction

/-! What a span is cut into.

`Shape.Covers` says how the spans inside a form make up the whole: nothing but the
form's own brackets and operator lies between them. On a nested span every form covers it
and the spans inside are nested again (`Shape.covers_of`), so that reading a
span inside out never meets a bracket without its partner.

Which operator a span is cut at is settled by strength and place alone:
`foldl_looser_spec` says that all others bind at least as tightly, and where they
stand if they bind as loosely. -/
namespace Formulary

variable {span left right rest : List Token}

namespace Token

theorem isPlain_of_isOperator {t : Token} (h : t.isOperator = true) : t.IsPlain := by
  cases t with
  | mk kind text offset => cases kind <;> simp_all [isOperator, IsPlain, opens, closes]

theorem not_isOperator_of_opens {t : Token} (h : t.opens = true) : t.isOperator = false := by
  cases t with
  | mk kind text offset => cases kind <;> simp_all [isOperator, opens]

theorem kind_of_isOperator {t : Token} (h : t.isOperator = true) :
    t.kind = .operator ∨ t.kind = .word ∧ isWordOperator t.text = true := by
  cases t with
  | mk kind text offset => cases kind <;> simp_all [isOperator]

theorem isPlain_of_kind_word {t : Token} (h : t.kind = .word) : t.IsPlain := by
  simp [IsPlain, opens, closes, h]

theorem opens_of_kind_openParen {t : Token} (h : t.kind = .openParen) : t.opens = true := by
  simp [opens, h]

theorem closes_of_kind_closeParen {t : Token} (h : t.kind = .closeParen) : t.closes = true := by
  simp [closes, h]

/-- What closes an opening parenthesis is a closing parenthesis, and likewise for square
brackets. -/
theorem kind_of_partner {opening closing : Token} (hc : closing.closes = true)
    (hk : opening.kind = closing.kind.partner) :
    (opening.kind = .openParen ∧ closing.kind = .closeParen) ∨
    (opening.kind = .openBracket ∧ closing.kind = .closeBracket) := by
  cases closing with
  | mk kind text offset => cases kind <;> simp_all [closes, TokenKind.partner]

end Token

/-! ### The operators outside brackets -/

/-- An operator of the span stands at a position, outside all brackets. -/
def StandsAt (depth start : Nat) (span : List Token) (c : Nat × Token) : Prop :=
  ∃ left right, span = left ++ c.2 :: right ∧ c.1 = start + left.length ∧
    c.2.isOperator = true ∧ depthAfter depth left = 0

theorem StandsAt.cons {depth next start : Nat} {c : Nat × Token} (t : Token)
    (h : StandsAt next (start + 1) rest c)
    (hd : ∀ left, depthAfter depth (t :: left) = depthAfter next left) :
    StandsAt depth start (t :: rest) c := by
  obtain ⟨left, right, rfl, hc, hop, hleft⟩ := h
  refine ⟨t :: left, right, rfl, ?_, hop, (hd left).trans hleft⟩
  rw [hc, List.length_cons]
  omega

theorem standsAt_of_candidates {before : Option Token} {depth start : Nat} {c : Nat × Token}
    (h : c ∈ candidates before depth start span) : StandsAt depth start span c := by
  fun_induction candidates before depth start span with
  | case1 => cases h
  | case2 before depth start t rest ho ih => exact (ih h).cons t fun _ => depthAfter_opens _ ho
  | case3 before depth start t rest _ hc ih => exact (ih h).cons t fun _ => depthAfter_closes _ hc
  | case4 before depth start t rest ho hc hb ih =>
    simp only [Bool.and_eq_true, decide_eq_true_eq] at hb
    rcases List.mem_cons.1 h with rfl | h
    · exact ⟨[], rest, rfl, rfl, hb.1.2, hb.1.1⟩
    · exact (ih h).cons t fun _ => depthAfter_plain _ (Token.isPlain_of_isOperator hb.1.2)
  | case5 before depth start t rest ho hc _ ih =>
    exact (ih h).cons t fun _ => depthAfter_plain _ ⟨by simpa using ho, by simpa using hc⟩

/-- A nested span is cut into nested spans. -/
theorem nested_of_splitPoint {position : Nat} {op : Token} (h : Nested span)
    (hsplit : splitPoint span = some (position, op)) :
    span = span.take position ++ op :: span.drop (position + 1) ∧ op.isOperator = true ∧
      Nested (span.take position) ∧ Nested (span.drop (position + 1)) := by
  obtain ⟨left, right, rfl, hpos, hop, hdepth⟩ := standsAt_of_candidates (splitPoint_mem hsplit)
  simp only [Nat.zero_add] at hpos hop
  subst hpos
  rw [Nested, openAfter_append] at h
  obtain ⟨after, hleft, hright⟩ := Option.bind_eq_some_iff.1 h
  have hnil : after = [] := by
    rw [← List.length_eq_zero_iff, ← depthAfter_eq hleft]
    exact hdepth
  subst hnil
  have hdrop : (left ++ op :: right).drop (left.length + 1) = right := by
    rw [← List.drop_drop, List.drop_left]
    rfl
  rw [List.take_left, hdrop]
  exact ⟨rfl, hop, hleft, Nested.of_cons hright (Token.isPlain_of_isOperator hop)⟩

/-! ### The loosest operator -/

/-- The operators before the one cut at bind tighter, or as loosely in a band that groups
to the left; those behind it bind tighter, or as loosely in a band that groups to the
right. -/
def CutAt (before : List (Nat × Token)) (c : Nat × Token) (behind : List (Nat × Token)) : Prop :=
  (∀ x ∈ before, c.2.strength < x.2.strength ∨
    c.2.strength = x.2.strength ∧ groupsRight c.2.text = false) ∧
  (∀ y ∈ behind, c.2.strength < y.2.strength ∨
    c.2.strength = y.2.strength ∧ groupsRight y.2.text = true)

theorem foldl_looser_spec (first : Nat × Token) (others : List (Nat × Token)) :
    ∃ before behind, first :: others = before ++ others.foldl looser first :: behind ∧
      CutAt before (others.foldl looser first) behind := by
  -- From the back: the last operator is compared with the loosest of all before it.
  induction others using List.reverseRecOn with
  | nil => exact ⟨[], [], rfl, fun _ hx => (nomatch hx), fun _ hy => (nomatch hy)⟩
  | append_singleton others last ih =>
    obtain ⟨before, behind, heq, hbefore, hbehind⟩ := ih
    rw [List.foldl_append, List.foldl_cons, List.foldl_nil]
    generalize others.foldl looser first = c at heq hbefore hbehind ⊢
    have hall : first :: (others ++ [last]) = before ++ c :: (behind ++ [last]) := by
      rw [← List.cons_append, heq, List.append_assoc, List.cons_append]
    unfold looser
    split
    · next hlt =>
      refine ⟨first :: others, [], rfl, fun x hx => .inl ?_, fun _ hy => (nomatch hy)⟩
      rw [heq] at hx
      rcases List.mem_append.1 hx with hx | hx
      · rcases hbefore x hx with h | h <;> omega
      · rcases List.mem_cons.1 hx with rfl | hx
        · exact hlt
        · rcases hbehind x hx with h | h <;> omega
    · next hge =>
      split
      · next hlast =>
        simp only [Bool.and_eq_true, decide_eq_true_eq, Bool.not_eq_true'] at hlast
        refine ⟨first :: others, [], rfl, fun x hx => ?_, fun _ hy => (nomatch hy)⟩
        have hle : last.2.strength ≤ x.2.strength := by
          rw [heq] at hx
          rcases List.mem_append.1 hx with hx | hx
          · rcases hbefore x hx with h | h <;> omega
          · rcases List.mem_cons.1 hx with rfl | hx
            · omega
            · rcases hbehind x hx with h | h <;> omega
        rcases Nat.lt_or_eq_of_le hle with h | h
        · exact .inl h
        · exact .inr ⟨h, hlast.2⟩
      · next hlast =>
        refine ⟨before, behind ++ [last], hall, hbefore, fun y hy => ?_⟩
        rcases List.mem_append.1 hy with hy | hy
        · exact hbehind y hy
        · obtain rfl := List.mem_singleton.1 hy
          rcases Nat.lt_or_eq_of_le (Nat.not_lt.1 hge) with h | h
          · exact .inl h
          · exact .inr ⟨h, by simpa [h] using hlast⟩

/-! ### Forms -/

/-- How the parts of a form make up the span it is the form of. -/
def Shape.Covers (span : List Token) : Shape → Prop
  | .empty => span = []
  | .unary op operand => span = op :: operand ∧ op.isOperator = true ∧ Nested operand
  | .binary left op right =>
    span = left ++ op :: right ∧ op.isOperator = true ∧ Nested left ∧ Nested right
  | .atom t => span = [t] ∧ t.isOperator = false
  | .group inner => ∃ opening closing, span = opening :: (inner ++ [closing]) ∧
      opening.kind = .openParen ∧ closing.kind = .closeParen ∧ Nested inner
  | .list inner => ∃ opening closing, span = opening :: (inner ++ [closing]) ∧
      opening.kind = .openBracket ∧ closing.kind = .closeBracket ∧ Nested inner
  | .call name inner => ∃ opening closing, span = name :: opening :: (inner ++ [closing]) ∧
      name.kind = .word ∧ opening.kind = .openParen ∧ closing.kind = .closeParen ∧ Nested inner
  | .other => True

theorem Shape.covers_primary {first : Token} (h : Nested (first :: rest))
    (hop : first.isOperator = false) : (Shape.primary first rest).Covers (first :: rest) := by
  unfold primary
  split
  · next hnil =>
    rw [List.isEmpty_iff] at hnil
    exact ⟨by rw [hnil], hop⟩
  · split
    · next hend =>
      simp only [Bool.and_eq_true] at hend
      obtain ⟨inner, closing, rfl, hin, hc, hk⟩ := nested_of_closesAtEnd h hend.1 hend.2
      rw [List.dropLast_concat]
      rcases Token.kind_of_partner hc hk with ⟨ho, hc⟩ | ⟨ho, hc⟩
      · rw [if_pos ho]
        exact ⟨first, closing, rfl, ho, hc, hin⟩
      · rw [if_neg (by simp [ho])]
        exact ⟨first, closing, rfl, ho, hc, hin⟩
    · split
      · next bracket behind hne hend =>
        split
        · next hcall =>
          simp only [Bool.and_eq_true, decide_eq_true_eq] at hcall
          obtain ⟨⟨hword, hparen⟩, hend⟩ := hcall
          have ho := Token.opens_of_kind_openParen hparen
          have hn : Nested (bracket :: behind) :=
            Nested.of_cons h (Token.isPlain_of_kind_word hword)
          obtain ⟨inner, closing, rfl, hin, hc, hk⟩ := nested_of_closesAtEnd hn ho hend
          rw [List.dropLast_concat]
          rcases Token.kind_of_partner hc hk with ⟨-, hc⟩ | ⟨ho', -⟩
          · exact ⟨bracket, closing, rfl, hword, hparen, hc, hin⟩
          · rw [hparen] at ho'
            cases ho'
        · trivial
      · trivial

/-- The form of a nested span covers it. -/
theorem Shape.covers_of (h : Nested span) : (Shape.of span).Covers span := by
  unfold Shape.of
  split
  · rfl
  · next first rest =>
    have hunary (hop : first.isOperator = true) : (Shape.unary first rest).Covers (first :: rest) :=
      ⟨rfl, hop, Nested.of_cons h (Token.isPlain_of_isOperator hop)⟩
    split
    · next position op hsplit =>
      split
      · next hfirst =>
        simp only [Bool.and_eq_true] at hfirst
        exact hunary hfirst.1
      · exact nested_of_splitPoint h hsplit
    · split
      · next hop => exact hunary hop
      · next hop => exact covers_primary h (by simpa using hop)

/-! ### Tokens inside a form -/

/-- The tokens of the spans inside a form. -/
def Shape.inner : Shape → List Token
  | .empty | .other => []
  | .unary _ operand => operand
  | .binary left _ right => left ++ right
  | .atom t => [t]
  | .group inner | .list inner | .call _ inner => inner

theorem Shape.inner_subset_primary (first : Token) (rest : List Token) :
    (Shape.primary first rest).inner ⊆ first :: rest := by
  have hrest : rest ⊆ first :: rest := List.subset_cons_self first rest
  have hdrop : rest.dropLast ⊆ first :: rest := List.Subset.trans (List.dropLast_subset rest) hrest
  unfold primary
  split
  · exact List.cons_subset_cons first (List.nil_subset rest)
  · split
    · split <;> exact hdrop
    · split
      · next bracket behind _ _ =>
        split
        · exact List.Subset.trans (List.dropLast_subset behind)
            (List.Subset.trans (List.subset_cons_self bracket behind) hrest)
        · exact List.nil_subset _
      · exact List.nil_subset _

/-- The spans inside a form have no tokens of their own. -/
theorem Shape.inner_subset (span : List Token) : (Shape.of span).inner ⊆ span := by
  unfold Shape.of
  split
  · exact List.nil_subset _
  · next first rest =>
    have hunary : (Shape.unary first rest).inner ⊆ first :: rest := List.subset_cons_self first rest
    split
    · next position op _ =>
      split
      · exact hunary
      · exact List.append_subset.2 ⟨List.take_subset _ _, List.drop_subset _ _⟩
    · split
      · exact hunary
      · exact inner_subset_primary first rest

end Formulary
