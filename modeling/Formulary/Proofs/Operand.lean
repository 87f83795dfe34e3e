import Formulary.Proofs.Climbing
import Formulary.Proofs.Grammar

/-! Operands.

An atom is a span that is an operand by itself: a single token, a span in brackets, or a
call. An operand is an atom behind a run of prefix operators. Neither has an operator
outside brackets that a span could be cut at, for prefix operators have no operand before
them. -/
namespace Formulary

variable {literal : String → Except ParseError Template}

/-! ### Scanning for operators -/

theorem candidates_append (before : Option Token) (depth start : Nat) (a b : List Token) :
    candidates before depth start (a ++ b) =
      candidates before depth start a ++
        candidates (a.getLast?.or before) (depthAfter depth a) (start + a.length) b := by
  induction a generalizing before depth start with
  | nil => rfl
  | cons t rest ih =>
    have hlast : (t :: rest).getLast?.or before = rest.getLast?.or (some t) := by
      cases rest with
      | nil => rfl
      | cons t' rest => simp [List.getLast?_cons]
    have hlength : start + (t :: rest).length = start + 1 + rest.length := by
      rw [List.length_cons]
      omega
    rw [List.cons_append, candidates, candidates, depthAfter, hlast, hlength, ih, ih, ih]
    split
    · rfl
    · split
      · rfl
      · split <;> rfl

/-- There is no operator outside the brackets of a span closed at its end. -/
theorem candidates_of_closesAtEnd {depth : Nat} {span : List Token} (before : Option Token)
    (start : Nat) (hd : 0 < depth) (h : closesAtEnd depth span = true) :
    candidates before depth start span = [] := by
  fun_induction closesAtEnd depth span generalizing before start with
  | case1 => cases h
  | case2 depth t rest ho ih => rw [candidates, if_pos ho, ih _ _ (Nat.succ_pos _) h]
  | case3 t rest ho hc =>
    rw [candidates, if_neg ho, if_pos hc, List.isEmpty_iff.1 h, candidates]
  | case4 depth t rest ho hc hne ih => rw [candidates, if_neg ho, if_pos hc, ih _ _ (by omega) h]
  | case5 depth t rest ho hc ih =>
    rw [candidates, if_neg ho, if_neg hc, if_neg (by simp; omega), ih _ _ hd h]

theorem candidates_enclosed {opening closing : Token} {inner : List Token} (before : Option Token)
    (start : Nat) (ho : opening.opens = true) (hc : closing.closes = true) (h : Nested inner) :
    candidates before 0 start (opening :: (inner ++ [closing])) = [] := by
  rw [candidates, if_pos ho]
  exact candidates_of_closesAtEnd _ _ (Nat.succ_pos 0) (closesAtEnd_inside h hc [])

/-- There is no comma outside the brackets of a span closed at its end. -/
theorem splitCommas_of_closesAtEnd {depth : Nat} {span : List Token} (hd : 0 < depth)
    (h : closesAtEnd depth span = true) : splitCommas depth span = [span] := by
  fun_induction closesAtEnd depth span with
  | case1 => cases h
  | case2 depth t rest ho ih => rw [splitCommas_opens _ ho, ih (Nat.succ_pos _) h]; rfl
  | case3 t rest ho hc => rw [splitCommas_closes _ hc, List.isEmpty_iff.1 h]; rfl
  | case4 depth t rest ho hc hne ih => rw [splitCommas_closes _ hc, ih (by omega) h]; rfl
  | case5 depth t rest ho hc ih =>
    rw [splitCommas, if_neg ho, if_neg hc, if_neg (by simp; omega), ih hd h]
    rfl

theorem splitCommas_enclosed {opening closing : Token} {inner : List Token}
    (ho : opening.opens = true) (hc : closing.closes = true) (h : Nested inner) :
    splitCommas 0 (opening :: (inner ++ [closing])) = [opening :: (inner ++ [closing])] := by
  rw [splitCommas_opens _ ho,
    splitCommas_of_closesAtEnd (Nat.succ_pos 0) (closesAtEnd_inside h hc [])]
  rfl

theorem shape_of_enclosed {opening closing : Token} {inner : List Token}
    (ho : opening.opens = true) (hc : closing.closes = true) (h : Nested inner) :
    Shape.of (opening :: (inner ++ [closing])) =
      if opening.kind = .openParen then .group inner else .list inner := by
  have hsplit : splitPoint (opening :: (inner ++ [closing])) = none := by
    rw [splitPoint, candidates_enclosed none 0 ho hc h]
  simp [Shape.of, hsplit, Token.not_isOperator_of_opens ho, Shape.primary, ho,
    closesAtEnd_enclosed h ho hc]

/-! ### Atoms -/

theorem Token.not_endsOperand_of_isOperator {t : Token} (h : t.isOperator = true) :
    t.endsOperand = false := by
  simp [endsOperand, h]

theorem Token.not_comma_of_isOperator {t : Token} (h : t.isOperator = true) :
    t.kind ≠ .comma := by
  rcases kind_of_isOperator h with hk | ⟨hk, -⟩ <;> simp [hk]

theorem Token.endsOperand_of_closes {t : Token} (h : t.closes = true) : t.endsOperand = true := by
  cases t with
  | mk kind text offset => cases kind <;> simp_all [closes, endsOperand, isOperator, opens]

/-- The kinds of token that can be operands are neither brackets nor commas. -/
theorem Token.isPlain_of_kind {t : Token}
    (hk : t.kind = .word ∨ t.kind = .integer ∨ t.kind = .text) :
    t.IsPlain ∧ t.kind ≠ .comma := by
  rcases hk with hk | hk | hk <;> simp [IsPlain, opens, closes, hk]

theorem not_isWordOperator_of_ofName? {spelling : String}
    (h : (Builtin.ofName? spelling).isSome = true) : isWordOperator spelling = false := by
  obtain ⟨f, hf⟩ := Option.isSome_iff_exists.1 h
  rw [← Builtin.name_of_ofName? hf]
  cases f <;> decide

/-- The spans that are operands by themselves. -/
inductive IsAtom : List Token → Prop where
  | token {t : Token} (hop : t.isOperator = false)
      (hk : t.kind = .word ∨ t.kind = .integer ∨ t.kind = .text) : IsAtom [t]
  /-- A span in brackets, the first closed by the last. -/
  | enclosed {opening closing : Token} {inner : List Token} (ho : opening.opens = true)
      (hc : closing.closes = true) (hk : opening.kind = closing.kind.partner) (hn : Nested inner) :
      IsAtom (opening :: (inner ++ [closing]))
  | call {name opening closing : Token} {inner : List Token} (hw : name.kind = .word)
      (hf : (Builtin.ofName? name.text).isSome = true) (ho : opening.kind = .openParen)
      (hc : closing.kind = .closeParen) (hn : Nested inner) :
      IsAtom (name :: opening :: (inner ++ [closing]))

/-- An operand that is a formula by itself. -/
structure Atom (literal : String → Except ParseError Template) where
  span : List Token
  tree : Expr
  isAtom : IsAtom span
  parses : parseTokens literal span = .ok tree

namespace IsAtom

variable {span : List Token}

theorem nested (h : IsAtom span) : Nested span := by
  cases h with
  | token hop hk => exact nested_plain (Token.isPlain_of_kind hk).1
  | enclosed ho hc hk hn => exact hn.enclosed ho hc hk
  | call hw hf ho hc hn =>
    exact .cons (Token.isPlain_of_kind_word hw) (hn.enclosed (Token.opens_of_kind_openParen ho)
      (Token.closes_of_kind_closeParen hc) (by simp [ho, hc, TokenKind.partner]))

/-- An atom has no operator outside brackets. -/
theorem candidates_eq_nil (h : IsAtom span) (before : Option Token) (start : Nat) :
    candidates before 0 start span = [] := by
  cases h with
  | token hop hk => simp [candidates, hop]
  | enclosed ho hc hk hn => exact candidates_enclosed before start ho hc hn
  | call hw hf ho hc hn =>
    have hp := Token.isPlain_of_kind_word hw
    have hop : _ = false := not_isWordOperator_of_ofName? hf
    rw [candidates, if_neg (by simp [hp.1]), if_neg (by simp [hp.2]),
      if_neg (by simp [Token.isOperator, hw, hop])]
    exact candidates_enclosed _ _ (Token.opens_of_kind_openParen ho)
      (Token.closes_of_kind_closeParen hc) hn

theorem splitCommas_eq (h : IsAtom span) : splitCommas 0 span = [span] := by
  cases h with
  | token hop hk =>
    have hp := Token.isPlain_of_kind hk
    rw [splitCommas_plain hp.1 fun _ => hp.2]
    rfl
  | enclosed ho hc hk hn => exact splitCommas_enclosed ho hc hn
  | call hw hf ho hc hn =>
    have hp := Token.isPlain_of_kind (.inl hw)
    rw [splitCommas_plain hp.1 (fun _ => hp.2),
      splitCommas_enclosed (Token.opens_of_kind_openParen ho) (Token.closes_of_kind_closeParen hc) hn]
    rfl

/-- What stands behind an atom has an operand before it. -/
theorem endsOperand (h : IsAtom span) : ∃ t, span.getLast? = some t ∧ t.endsOperand = true := by
  cases h with
  | @token t hop hk =>
    have hp := Token.isPlain_of_kind hk
    exact ⟨t, rfl, by simp [Token.endsOperand, hop, hp.1.1, hp.2]⟩
  | @enclosed _ closing _ ho hc hk hn =>
    exact ⟨closing, by simp [List.getLast?_cons], Token.endsOperand_of_closes hc⟩
  | @call _ _ closing _ hw hf ho hc hn =>
    exact ⟨closing, by simp [List.getLast?_cons],
      Token.endsOperand_of_closes (Token.closes_of_kind_closeParen hc)⟩

theorem first_not_isOperator (h : IsAtom span) :
    ∃ first rest, span = first :: rest ∧ first.isOperator = false := by
  cases h with
  | @token t hop hk => exact ⟨t, [], rfl, hop⟩
  | enclosed ho hc hk hn => exact ⟨_, _, rfl, Token.not_isOperator_of_opens ho⟩
  | call hw hf ho hc hn =>
    exact ⟨_, _, rfl, by simp [Token.isOperator, hw, not_isWordOperator_of_ofName? hf]⟩

end IsAtom

theorem shape_of_call {name opening closing : Token} {inner : List Token} (hw : name.kind = .word)
    (hf : (Builtin.ofName? name.text).isSome = true) (ho : opening.kind = .openParen)
    (hc : closing.kind = .closeParen) (hn : Nested inner) :
    Shape.of (name :: opening :: (inner ++ [closing])) = .call name inner := by
  have hatom : IsAtom (name :: opening :: (inner ++ [closing])) := .call hw hf ho hc hn
  have hsplit : splitPoint (name :: opening :: (inner ++ [closing])) = none := by
    rw [splitPoint, hatom.candidates_eq_nil]
  have hop : name.isOperator = false := by
    simp [Token.isOperator, hw, not_isWordOperator_of_ofName? hf]
  have hend := closesAtEnd_enclosed hn (Token.opens_of_kind_openParen ho)
    (Token.closes_of_kind_closeParen hc)
  simp [Shape.of, hsplit, hop, Shape.primary, (Token.isPlain_of_kind_word hw).1, hw, ho, hend]

/-- A token alone. -/
theorem parseTokens_single {t : Token} (hop : t.isOperator = false)
    (hk : t.kind = .word ∨ t.kind = .integer ∨ t.kind = .text) :
    parseTokens literal [t] = parseAtom literal t := by
  have hp := (Token.isPlain_of_kind hk).1
  have hshape : Shape.of [t] = .atom t := by
    simp [Shape.of, splitPoint, candidates, hp.1, hp.2, hop, Shape.primary]
  rw [parseTokens_of_nested (nested_plain hp), parseSpan_atom hshape]

namespace Atom

/-- A single token. -/
def ofToken (t : Token) (tree : Expr) (hop : t.isOperator = false)
    (hk : t.kind = .word ∨ t.kind = .integer ∨ t.kind = .text)
    (h : parseAtom literal t = .ok tree) : Atom literal where
  span := [t]
  tree := tree
  isAtom := .token hop hk
  parses := (parseTokens_single hop hk).trans h

/-- A span in parentheses. -/
def ofGroup (opening closing : Token) (inner : List Token) (tree : Expr)
    (ho : opening.kind = .openParen) (hc : closing.kind = .closeParen) (hn : Nested inner)
    (h : parseSpan literal inner = .ok tree) : Atom literal :=
  have ho' : opening.opens = true := Token.opens_of_kind_openParen ho
  have hc' : closing.closes = true := Token.closes_of_kind_closeParen hc
  have hk : opening.kind = closing.kind.partner := by rw [ho, hc]; rfl
  { span := opening :: (inner ++ [closing])
    tree := tree
    isAtom := .enclosed ho' hc' hk hn
    parses := by
      have hshape := shape_of_enclosed ho' hc' hn
      rw [if_pos ho] at hshape
      exact parseTokens_eq_ok_iff.2 ⟨hn.enclosed ho' hc' hk, (parseSpan_group hshape).trans h⟩ }

/-- A span in square brackets. -/
def ofList (opening closing : Token) (inner : List Token) (items : List Expr)
    (ho : opening.kind = .openBracket) (hc : closing.kind = .closeBracket) (hn : Nested inner)
    (h : parseParts literal (parts inner) = .ok items) : Atom literal :=
  have ho' : opening.opens = true := by simp [Token.opens, ho]
  have hc' : closing.closes = true := by simp [Token.closes, hc]
  have hk : opening.kind = closing.kind.partner := by rw [ho, hc]; rfl
  { span := opening :: (inner ++ [closing])
    tree := .list items
    isAtom := .enclosed ho' hc' hk hn
    parses := by
      have hshape := shape_of_enclosed ho' hc' hn
      rw [if_neg (by simp [ho])] at hshape
      refine parseTokens_eq_ok_iff.2 ⟨hn.enclosed ho' hc' hk, ?_⟩
      rw [parseSpan_list hshape, h]
      rfl }

/-- A call. -/
def ofCall (name opening closing : Token) (inner : List Token) (f : Builtin)
    (arguments : List Expr) (hw : name.kind = .word) (hf : Builtin.ofName? name.text = some f)
    (ho : opening.kind = .openParen) (hc : closing.kind = .closeParen) (hn : Nested inner)
    (h : parseParts literal (parts inner) = .ok arguments)
    (harity : f.arity.accepts arguments.length = true) : Atom literal :=
  have hatom : IsAtom (name :: opening :: (inner ++ [closing])) :=
    .call hw (by rw [hf]; rfl) ho hc hn
  { span := name :: opening :: (inner ++ [closing])
    tree := .call f arguments
    isAtom := hatom
    parses := by
      have hresolve : Builtin.resolve name.text arguments.length = .ok f := by
        simp [Builtin.resolve, hf, harity]
      refine parseTokens_eq_ok_iff.2 ⟨hatom.nested, ?_⟩
      rw [parseSpan_call (shape_of_call hw (by rw [hf]; rfl) ho hc hn) hf, h]
      show (do return Expr.call (← Builtin.resolve name.text arguments.length) arguments) = _
      rw [hresolve]
      rfl }

end Atom

/-! ### Prefix operators -/

/-- A token for a prefix operator. -/
structure PrefixToken where
  token : Token
  op : UnaryOp
  isOperator : token.isOperator = true
  spells : token.text = op.symbol

theorem PrefixToken.strength_eq (p : PrefixToken) : p.token.strength = p.op.strength := by
  rw [Token.strength, p.spells]
  rfl

structure Operand (literal : String → Except ParseError Template) where
  prefixes : List PrefixToken
  atom : Atom literal

def Operand.tokens (o : Operand literal) : List Token :=
  o.prefixes.map PrefixToken.token ++ o.atom.span

/-- The atom under its prefix operators. -/
def Operand.tree (o : Operand literal) : Expr :=
  (o.prefixes.map PrefixToken.op).foldr .unary o.atom.tree

namespace Operand

theorem nested (o : Operand literal) : Nested o.tokens := by
  unfold tokens
  induction o.prefixes with
  | nil => exact o.atom.isAtom.nested
  | cons p ps ih => exact .cons (Token.isPlain_of_isOperator p.isOperator) ih

/-- A prefix operator has no operand before it, whatever it follows. -/
theorem candidates_eq_nil (o : Operand literal) {before : Option Token} (start : Nat)
    (hb : before.any Token.endsOperand = false) : candidates before 0 start o.tokens = [] := by
  unfold tokens
  induction o.prefixes generalizing before start with
  | nil => exact o.atom.isAtom.candidates_eq_nil before start
  | cons p ps ih =>
    have hp := Token.isPlain_of_isOperator p.isOperator
    rw [List.map_cons, List.cons_append, candidates, if_neg (by simp [hp.1]),
      if_neg (by simp [hp.2]), if_neg (by simp [hb])]
    exact ih _ (Token.not_endsOperand_of_isOperator p.isOperator)

/-- An operand has no comma outside brackets. -/
theorem splitCommas_eq (o : Operand literal) : splitCommas 0 o.tokens = [o.tokens] := by
  unfold tokens
  induction o.prefixes with
  | nil => exact o.atom.isAtom.splitCommas_eq
  | cons p ps ih =>
    rw [List.map_cons, List.cons_append,
      splitCommas_plain (Token.isPlain_of_isOperator p.isOperator)
        (fun _ => Token.not_comma_of_isOperator p.isOperator), ih]
    rfl

theorem endsOperand (o : Operand literal) :
    ∃ t, o.tokens.getLast? = some t ∧ t.endsOperand = true := by
  obtain ⟨t, hlast, ht⟩ := o.atom.isAtom.endsOperand
  exact ⟨t, by simp [tokens, List.getLast?_append, hlast], ht⟩

end Operand

end Formulary
