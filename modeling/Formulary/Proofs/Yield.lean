import Formulary.Proofs.Grammar
import Formulary.Proofs.Lexeme
import Mathlib

/-! Every token of a formula is in its tree.

The yield of a tree lists, from left to right, what each token of the formula has to be;
parentheses leave no mark, for grouping is in the shape of the tree. `yield_of_parse`: read
without parentheses, the tokens of a formula are the yield of its tree, one by one, so
that none is lost, invented, read twice or moved. -/
namespace Formulary

/-! ### Marks -/

/-- What a tree says of one token. -/
inductive Mark where
  | token (kind : TokenKind) (spelling : String)
  /-- Digits that write a number. -/
  | integer (n : Int64)
  /-- A quoted text that stands for a template. -/
  | text (template : Template)

def Mark.comma : Mark := .token .comma ","

/-- An operator; those spelled with letters are words. -/
def Mark.operator (spelling : String) : Mark :=
  .token (if isWordOperator spelling then .word else .operator) spelling

/-- The token is as the mark says. -/
def Mark.Matches (literal : String → Except ParseError Template) : Mark → Token → Prop
  | .token kind spelling, t => t.kind = kind ∧ t.text = spelling
  | .integer n, t =>
    t.kind = .integer ∧ t.text.toList.all Text.isDigit = true ∧
      (Text.ofDigits t.text.toList : Int) = n.toInt
  | .text template, t =>
    t.kind = .text ∧ ∃ content, t.text = "'" ++ content ++ "'" ∧ literal content = .ok template

/-- Lists of marks with commas between them. -/
def withCommas (marks : List (List Mark)) : List Mark :=
  [Mark.comma].intercalate marks

namespace Expr

mutual

/-- The marks of the tokens a tree is read from, without parentheses. -/
def yield : Expr → List Mark
  | integer n => [.integer n]
  | text s inserts => [.text ⟨s, inserts⟩]
  | list items =>
    .token .openBracket "[" :: (withCommas (yields items) ++ [.token .closeBracket "]"])
  | name n => [.token .word n]
  | unary op operand => .operator op.symbol :: operand.yield
  | binary op left right => left.yield ++ .operator op.symbol :: right.yield
  | member subject selector => subject.yield ++ .operator "." :: selector.yield
  | call f arguments => .token .word f.name :: withCommas (yields arguments)
  | clauses body bindings => body.yield ++ .operator "where" :: withCommas (bindingYields bindings)

def yields : List Expr → List (List Mark)
  | [] => []
  | e :: rest => e.yield :: yields rest

def bindingYields : List (String × Expr) → List (List Mark)
  | [] => []
  | (bound, e) :: rest => (.token .word bound :: .operator "=" :: e.yield) :: bindingYields rest

end

theorem yields_ne_nil {es : List Expr} (h : es ≠ []) : yields es ≠ [] := by
  cases es with
  | nil => exact absurd rfl h
  | cons => exact List.cons_ne_nil _ _

theorem bindingYields_ne_nil {bs : List (String × Expr)} (h : bs ≠ []) : bindingYields bs ≠ [] := by
  cases bs with
  | nil => exact absurd rfl h
  | cons => exact List.cons_ne_nil _ _

end Expr

def Phrase.yield : Phrase → List Mark
  | .expr e => e.yield
  | .items es => withCommas (Expr.yields es)
  | .bindings bs => withCommas (Expr.bindingYields bs)

/-! ### Tokens without parentheses -/

def Token.isParen (t : Token) : Bool :=
  t.kind = .openParen || t.kind = .closeParen

def withoutParens (span : List Token) : List Token :=
  span.filter fun t => !t.isParen

theorem withoutParens_append (a b : List Token) :
    withoutParens (a ++ b) = withoutParens a ++ withoutParens b :=
  List.filter_append ..

theorem withoutParens_cons {t : Token} (h : t.isParen = false) (span : List Token) :
    withoutParens (t :: span) = t :: withoutParens span :=
  List.filter_cons_of_pos (by simp [h])

theorem withoutParens_paren {t : Token} (h : t.isParen = true) (span : List Token) :
    withoutParens (t :: span) = withoutParens span :=
  List.filter_cons_of_neg (by simp [h])

theorem Token.not_isParen_of_isOperator {t : Token} (h : t.isOperator = true) :
    t.isParen = false := by
  rcases kind_of_isOperator h with hk | ⟨hk, -⟩ <;> simp [isParen, hk]

/-! ### Single marks -/

section
variable {literal : String → Except ParseError Template} {t : Token}

theorem matches_operator (hl : t.Lexed) (h : t.isOperator = true) :
    (Mark.operator t.text).Matches literal t := by
  refine ⟨?_, rfl⟩
  rcases Token.kind_of_isOperator h with hk | ⟨hk, hw⟩
  · cases hw : isWordOperator t.text with
    | true =>
      rw [hl.kind_of_isWordOperator hw] at hk
      cases hk
    | false => exact hk
  · rw [if_pos hw, hk]

theorem UnaryOp.symbol_of_ofSymbol? {spelling : String} {u : UnaryOp}
    (h : UnaryOp.ofSymbol? spelling = some u) : u.symbol = spelling := by
  unfold UnaryOp.ofSymbol? at h
  split at h <;> cases h <;> rfl

/-- The digits of a number token write the number that is read from them. -/
theorem matches_integer (hl : t.Lexed) (hk : t.kind = .integer) {n : Int64}
    (h : integer? t.text = some n) : (Mark.integer n).Matches literal t := by
  obtain ⟨hne, hdigits⟩ := hl.digits_of_kind hk
  refine ⟨hk, hdigits, ?_⟩
  have hnat : natural? t.text.toList = some (Text.ofDigits t.text.toList) := by
    rw [natural?, if_neg (by simp [hne, hdigits])]
  have hsign {c : Char} {cs : List Char} (hc : Text.isDigit c = false)
      (heq : t.text.toList = c :: cs) : False := by
    rw [heq, List.all_cons, hc] at hdigits
    cases hdigits
  unfold integer? at h
  split at h
  · next heq => exact (hsign (by decide) heq).elim
  · next heq => exact (hsign (by decide) heq).elim
  · rw [hnat] at h
    exact (Word.toInt_of_narrow? h).symm

theorem matches_text (hl : t.Lexed) (hk : t.kind = .text) {template : Template}
    (h : literal (unquote t.text) = .ok template) : (Mark.text template).Matches literal t := by
  obtain ⟨content, htext⟩ := hl.text_eq_quoted hk
  refine ⟨hk, unquote t.text, ?_, h⟩
  have hunquote : (unquote t.text).toList = content := by
    rw [unquote, htext, String.toList_ofList]
    simp
  apply String.toList_inj.1
  rw [htext, String.toList_append, String.toList_append, hunquote]
  rfl

theorem matches_spelled (hl : t.Lexed) {kind : TokenKind} {spelling : String} (hk : t.kind = kind)
    (hs : kind.spelling? = some spelling) : (Mark.token kind spelling).Matches literal t :=
  ⟨hk, hl.text_eq_spelling (hk ▸ hs)⟩

end

/-! ### The yield of a derivation -/

/-- The tokens are what the marks say, one by one. -/
def Reads (literal : String → Except ParseError Template) (marks : List Mark)
    (tokens : List Token) : Prop :=
  List.Forall₂ (Mark.Matches literal) marks tokens

section
variable {literal : String → Except ParseError Template} {m : Mark} {t : Token}
  {ms ns : List Mark} {span rest : List Token}

theorem Reads.append (h : Reads literal ms (withoutParens span))
    (h' : Reads literal ns (withoutParens rest)) :
    Reads literal (ms ++ ns) (withoutParens (span ++ rest)) := by
  rw [withoutParens_append]
  exact List.rel_append h h'

theorem Reads.cons (hm : m.Matches literal t) (ht : t.isParen = false)
    (h : Reads literal ms (withoutParens span)) :
    Reads literal (m :: ms) (withoutParens (t :: span)) := by
  rw [withoutParens_cons ht]
  exact List.Forall₂.cons hm h

theorem Reads.single (hm : m.Matches literal t) (ht : t.isParen = false) :
    Reads literal [m] (withoutParens [t]) :=
  .cons hm ht .nil

/-- Parentheses around a span leave no mark. -/
theorem Reads.enclosed {opening closing : Token} (ho : opening.kind = .openParen)
    (hc : closing.kind = .closeParen) (h : Reads literal ms (withoutParens span)) :
    Reads literal ms (withoutParens (opening :: (span ++ [closing]))) := by
  rw [withoutParens_paren (by simp [Token.isParen, ho]), withoutParens_append,
    withoutParens_paren (by simp [Token.isParen, hc])]
  simpa [withoutParens] using h

theorem withCommas_cons {marks : List (List Mark)} (h : marks ≠ []) (ms : List Mark) :
    withCommas (ms :: marks) = ms ++ .comma :: withCommas marks := by
  cases marks with
  | nil => exact absurd rfl h
  | cons ns marks => simp [withCommas, List.intercalate]

theorem Reads.operator {op : Token} {spelling : String} (hop : op.isOperator = true)
    (hs : op.text = spelling) (hl : op.Lexed) (h : Reads literal ms (withoutParens span))
    (h' : Reads literal ns (withoutParens rest)) :
    Reads literal (ms ++ .operator spelling :: ns) (withoutParens (span ++ op :: rest)) :=
  h.append (.cons (hs ▸ matches_operator hl hop) (Token.not_isParen_of_isOperator hop) h')

theorem Reads.binding {word equal : Token} (hw : word.kind = .word) (hl : equal.Lexed)
    (hk : equal.kind = .operator) (ht : equal.text = "=")
    (h : Reads literal ms (withoutParens span)) :
    Reads literal (.token .word word.text :: .operator "=" :: ms)
      (withoutParens (word :: equal :: span)) := by
  have hop : equal.isOperator = true := by simp [Token.isOperator, hk]
  exact .cons ⟨hw, rfl⟩ (by simp [Token.isParen, hw])
    (.cons (ht ▸ matches_operator hl hop) (Token.not_isParen_of_isOperator hop) h)

/-- A derivation reads every token of its span. -/
theorem Derives.reads {phrase : Phrase} (h : Derives literal span phrase)
    (hl : ∀ t ∈ span, t.Lexed) : Reads literal phrase.yield (withoutParens span) := by
  induction h with
  | name hk hop => exact .single ⟨hk, rfl⟩ (by simp [Token.isParen, hk])
  | integer hk hn =>
    exact .single (matches_integer (hl _ (List.mem_singleton_self _)) hk hn)
      (by simp [Token.isParen, hk])
  | text hk ht =>
    exact .single (matches_text (hl _ (List.mem_singleton_self _)) hk ht)
      (by simp [Token.isParen, hk])
  | unary hop hu _ ih =>
    simp only [List.forall_mem_cons] at hl
    exact .cons (UnaryOp.symbol_of_ofSymbol? hu ▸ matches_operator hl.1 hop)
      (Token.not_isParen_of_isOperator hop) (ih hl.2)
  | binary hop hb _ _ ihl ihr =>
    simp only [List.forall_mem_append, List.forall_mem_cons] at hl
    exact .operator hop (BinaryOp.symbol_of_ofSymbol? hb).symm hl.2.1 (ihl hl.1) (ihr hl.2.2)
  | member hop ht _ _ ihl ihr =>
    simp only [List.forall_mem_append, List.forall_mem_cons] at hl
    exact .operator hop ht hl.2.1 (ihl hl.1) (ihr hl.2.2)
  | clauses hop ht _ _ ihl ihr =>
    simp only [List.forall_mem_append, List.forall_mem_cons] at hl
    exact .operator hop ht hl.2.1 (ihl hl.1) (ihr hl.2.2)
  | group ho hc _ ih =>
    simp only [List.forall_mem_append, List.forall_mem_cons] at hl
    exact (ih hl.2.1).enclosed ho hc
  | list ho hc _ ih =>
    simp only [List.forall_mem_append, List.forall_mem_cons] at hl
    exact .cons (matches_spelled hl.1 ho rfl) (by simp [Token.isParen, ho])
      ((ih hl.2.1).append (.single (matches_spelled hl.2.2.1 hc rfl) (by simp [Token.isParen, hc])))
  | call hw hf ho hc _ _ ih =>
    simp only [List.forall_mem_append, List.forall_mem_cons] at hl
    exact .cons ⟨hw, (Builtin.name_of_ofName? hf).symm⟩ (by simp [Token.isParen, hw])
      ((ih hl.2.2.1).enclosed ho hc)
  | noItem => exact .nil
  | lastItem _ ih => simpa [Phrase.yield, Expr.yields, withCommas, List.intercalate] using ih hl
  | moreItems hcomma hne _ _ ihe ihs =>
    simp only [List.forall_mem_append, List.forall_mem_cons] at hl
    rw [Phrase.yield, Expr.yields, withCommas_cons (Expr.yields_ne_nil hne)]
    exact (ihe hl.1).append (.cons (matches_spelled hl.2.1 hcomma rfl)
      (by simp [Token.isParen, hcomma]) (ihs hl.2.2))
  | lastBinding hw _ hk ht _ ih =>
    simp only [List.forall_mem_cons] at hl
    simpa [Phrase.yield, Expr.bindingYields, withCommas, List.intercalate] using
      Reads.binding hw hl.2.1 hk ht (ih hl.2.2)
  | moreBindings hw _ hk ht hcomma hne _ _ _ ihe ihs =>
    simp only [List.forall_mem_append, List.forall_mem_cons] at hl
    rw [Phrase.yield, Expr.bindingYields, withCommas_cons (Expr.bindingYields_ne_nil hne)]
    exact (Reads.binding hw hl.2.1 hk ht (ihe hl.2.2.1)).append
      (.cons (matches_spelled hl.2.2.2.1 hcomma rfl) (by simp [Token.isParen, hcomma])
        (ihs hl.2.2.2.2))

end

/-- **Read without parentheses, the tokens of a formula are the yield of its tree**, one by
one and in order. -/
theorem yield_of_parse {source : String} {e : Expr} (h : parse source = .ok e) :
    ∃ tokens, tokenize source = .ok tokens ∧
      Reads Template.parse e.yield (withoutParens tokens) := by
  obtain ⟨tokens, htokens, -, hd⟩ := derives_of_parseSource h
  exact ⟨tokens, htokens, hd.reads (lexed_of_tokenize htokens)⟩

/-- A formula with a group, a quoted text, a call and a binding. -/
theorem yield_of_grouped_clauses :
    ∃ e, parse "2 * ('a{y}' - x) where x = [abs(07), y]" = .ok e ∧
      ∃ tokens, tokenize "2 * ('a{y}' - x) where x = [abs(07), y]" = .ok tokens ∧
        Reads Template.parse e.yield (withoutParens tokens) := by
  have h : parse "2 * ('a{y}' - x) where x = [abs(07), y]" =
      .ok (.clauses
        (.binary .multiply (.integer 2)
          (.binary .subtract (.text "a" [(1, .name "y")]) (.name "x")))
        [("x", .list [.call .abs [.integer 7], .name "y"])]) := by
    cbv
  exact ⟨_, h, yield_of_parse h⟩

end Formulary
