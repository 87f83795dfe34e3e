import Formulary.Proofs.Chain
import Formulary.Proofs.Cutting
import Formulary.Proofs.Lexing

/-! Formulas at the head of a text.

What is written down is read back piece by piece: the lexer finds the tokens of a piece at
the head of the text, they are read as a tree that is as wanted, and what follows the piece
is left for the next one. A piece can be an atom, an operand, any span that is a formula by
itself, or operands with commas between them. -/
namespace Formulary

/-! ### Parts of a list -/

section
variable {literal : String → Except ParseError Template} {comma : Token} {part ts : List Token}

theorem IsAtom.ne_nil {span : List Token} (h : IsAtom span) : span ≠ [] := by
  obtain ⟨t, hlast, -⟩ := h.endsOperand
  rintro rfl
  cases hlast

theorem Operand.tokens_ne_nil (o : Operand literal) : o.tokens ≠ [] := by
  obtain ⟨t, hlast, -⟩ := o.endsOperand
  intro hnil
  rw [hnil] at hlast
  cases hlast

/-- A part without commas outside brackets is the only one. -/
theorem parts_single (hne : part ≠ []) (h : splitCommas 0 part = [part]) : parts part = [part] := by
  rw [parts, if_neg (by simp [hne]), h]

/-- The first part, before its comma. -/
theorem parts_comma (h : splitCommas 0 part = [part]) (hn : Nested part)
    (hcomma : comma.kind = .comma) (hne : ts ≠ []) :
    parts (part ++ comma :: ts) = part :: parts ts := by
  have hdepth : depthAfter 0 part = 0 := depthAfter_eq hn
  rw [parts, if_neg (by simp), splitCommas_append h, hdepth, splitCommas_comma hcomma, parts,
    if_neg (by simp [hne])]
  simp

end

/-! ### Pieces -/

/-- An atom with a tree as wanted, and nothing of what follows. -/
def FindsAtom (l : Lexer) (P : Expr → Prop) (rest : List Char) : Prop :=
  ∃ (a : Atom Template.parse) (p : Nat), l.Passes a.span ⟨rest, p⟩ ∧ P a.tree

/-- An operand with a tree as wanted. -/
def FindsOperand (l : Lexer) (P : Expr → Prop) (rest : List Char) : Prop :=
  ∃ (o : Operand Template.parse) (p : Nat), l.Passes o.tokens ⟨rest, p⟩ ∧ P o.tree

/-- Tokens that are a formula with a tree as wanted. -/
def FindsSpan (l : Lexer) (P : Expr → Prop) (rest : List Char) : Prop :=
  ∃ (ts : List Token) (e : Expr) (p : Nat), l.Passes ts ⟨rest, p⟩ ∧ Nested ts ∧
    parseSpan Template.parse ts = .ok e ∧ P e

/-- Operands with trees as wanted, and commas between them. -/
def FindsOperands (l : Lexer) (Q : List Expr → Prop) (rest : List Char) : Prop :=
  ∃ (ts : List Token) (es : List Expr) (p : Nat), l.Passes ts ⟨rest, p⟩ ∧ Nested ts ∧
    parseParts Template.parse (parts ts) = .ok es ∧ Q es

section
variable {l : Lexer} {P : Expr → Prop} {Q Q' : List Expr → Prop} {cs rest : List Char}

theorem FindsAtom.operand (h : FindsAtom l P rest) : FindsOperand l P rest :=
  have ⟨a, p, hpass, ha⟩ := h
  ⟨⟨[], a⟩, p, hpass, ha⟩

theorem FindsOperand.span (h : FindsOperand l P rest) : FindsSpan l P rest :=
  have ⟨o, p, hpass, ho⟩ := h
  ⟨o.tokens, o.tree, p, hpass, o.nested, o.parseSpan_tokens, ho⟩

/-- A formula alone in its text. -/
theorem FindsSpan.exists_parse {source : String} (h : FindsSpan (Lexer.ofString source) P []) :
    ∃ e, parse source = .ok e ∧ P e := by
  obtain ⟨ts, e, p, hpass, hn, hparse, he⟩ := h
  refine ⟨e, ?_, he⟩
  have htokens : tokenize source = .ok ts := Lexer.tokens_at_end hpass rfl
  rw [parse, parseSource, htokens]
  exact parseTokens_eq_ok_iff.2 ⟨hn, hparse⟩

/-! ### Tokens -/

theorem integer?_repr {n : Nat} (h : Word.Fits n) :
    integer? n.repr = some (Int64.ofInt n) := by
  have hdigits : ∀ c ∈ n.repr.toList, Text.isDigit c = true :=
    fun c hc => isDigit_of_mem_repr hc
  have hnatural : natural? n.repr.toList = some n := by
    have hne : n.repr.toList.isEmpty = false := by
      rw [List.isEmpty_eq_false_iff]
      exact toList_repr_ne_nil n
    rw [natural?, hne, List.all_eq_true.2 hdigits, ofDigits_repr]
    rfl
  unfold integer?
  split
  · next hplus => exact absurd (hdigits '+' (hplus ▸ List.mem_cons_self)) (by decide)
  · next hminus => exact absurd (hdigits '-' (hminus ▸ List.mem_cons_self)) (by decide)
  · rw [hnatural, Option.bind_some, Word.narrow?, if_pos h]

/-- The atom `n`. -/
def Atom.ofNat (n position : Nat) (h : Word.Fits n) : Atom Template.parse :=
  .ofToken ⟨.integer, n.repr, position⟩ (.integer (Int64.ofInt n)) rfl (.inr (.inl rfl))
    (by simp only [parseAtom, integer?_repr h])

theorem findsAtom_natural {n : Int64} {k : Nat} (hn : n.toInt = k)
    (hl : l.rest = k.repr.toList ++ rest) (hrest : EndsDigits rest) (h : P (.integer n)) :
    FindsAtom l P rest := by
  have hfits : Word.Fits k := hn ▸ Word.fits_toInt n
  obtain ⟨p, hpass⟩ := (Lexer.Passes.start hl).digits hrest
  refine ⟨.ofNat k l.position hfits, _, hpass, ?_⟩
  show P (.integer (Int64.ofInt k))
  rwa [← hn, Int64.ofInt_toInt]

/-- A text without fragments stands for itself. -/
theorem parse_plain {s : String} (h : '{' ∉ s.toList) : Template.parse s = .ok (.plain s) := by
  refine parse_whole fun before behind heq => absurd ?_ h
  rw [heq]
  exact List.mem_append_right before List.mem_cons_self

theorem unquote_quoted (s : String) : unquote ("'" ++ s ++ "'") = s := by
  simp [unquote]

theorem findsAtom_text {s : String} (hquote : '\'' ∉ s.toList) (hbrace : '{' ∉ s.toList)
    (hl : l.rest = ("'" ++ s ++ "'").toList ++ rest) (h : P (.text s [])) :
    FindsAtom l P rest := by
  have hl' : l.rest = '\'' :: (s.toList ++ '\'' :: rest) := by simpa using hl
  obtain ⟨p, hpass⟩ := (Lexer.Passes.start hl').quoted hquote
  refine ⟨.ofToken ⟨.text, "'" ++ s ++ "'", l.position⟩ (.text s []) rfl (.inr (.inr rfl)) ?_, _,
    hpass, h⟩
  rw [parseAtom, unquote_quoted, parse_plain hbrace]
  rfl

/-- A text in quotes is read as the template that it holds, and is refused as that is. -/
theorem parse_quoted {s : String} (h : '\'' ∉ s.toList) :
    parse ("'" ++ s ++ "'") = Template.toExpr <$> Template.parse s := by
  have hl : (Lexer.ofString ("'" ++ s ++ "'")).rest = '\'' :: (s.toList ++ '\'' :: []) := by
    simp [Lexer.ofString]
  obtain ⟨p, hpass⟩ := (Lexer.Passes.start hl).quoted h
  let t : Token := ⟨.text, "'" ++ s ++ "'", 0⟩
  have htokens : tokenize ("'" ++ s ++ "'") = .ok [t] := Lexer.tokens_at_end hpass rfl
  have hatom : parseTokens Template.parse [t] =
      Template.toExpr <$> Template.parse (unquote t.text) :=
    parseTokens_single rfl (.inr (.inr rfl))
  rw [unquote_quoted] at hatom
  rw [parse, parseSource, htokens]
  exact hatom

/-! ### Brackets -/

/-- A formula in parentheses. -/
theorem findsAtom_group (hl : l.rest = '(' :: cs) (h : ∀ p, FindsSpan ⟨cs, p⟩ P (')' :: rest)) :
    FindsAtom l P rest := by
  obtain ⟨p, hpass⟩ := (Lexer.Passes.start hl).single rfl (by decide) (by decide)
  obtain ⟨ts, e, q, hspan, hn, hparse, he⟩ := h p
  obtain ⟨q', hpass⟩ := (hpass.append hspan).single rfl (by decide) (by decide)
  exact ⟨.ofGroup ⟨.openParen, "(", l.position⟩ ⟨.closeParen, ")", q⟩ ts e rfl rfl hn hparse, _,
    hpass, he⟩

theorem findsAtom_list (hl : l.rest = '[' :: cs)
    (h : ∀ p, FindsOperands ⟨cs, p⟩ Q (']' :: rest)) (hP : ∀ es, Q es → P (.list es)) :
    FindsAtom l P rest := by
  obtain ⟨p, hpass⟩ := (Lexer.Passes.start hl).single rfl (by decide) (by decide)
  obtain ⟨ts, es, q, hitems, hn, hparse, hes⟩ := h p
  obtain ⟨q', hpass⟩ := (hpass.append hitems).single rfl (by decide) (by decide)
  exact ⟨.ofList ⟨.openBracket, "[", l.position⟩ ⟨.closeBracket, "]", q⟩ ts es rfl rfl hn hparse, _,
    hpass, hP es hes⟩

theorem findsAtom_call {f : Builtin} (hl : l.rest = f.name.toList ++ '(' :: cs)
    (h : ∀ p, FindsOperands ⟨cs, p⟩ Q (')' :: rest))
    (harity : ∀ es, Q es → f.arity.accepts es.length = true) (hP : ∀ es, Q es → P (.call f es)) :
    FindsAtom l P rest := by
  have hscan : scan (f.name.toList ++ '(' :: cs) = .lexeme .word f.name.toList ('(' :: cs) := by
    cases f <;> rfl
  obtain ⟨p₀, hpass⟩ := (Lexer.Passes.start hl).scan hscan (by decide) (by decide)
  rw [String.ofList_toList] at hpass
  obtain ⟨p, hpass⟩ := hpass.single rfl (by decide) (by decide)
  obtain ⟨ts, es, q, harguments, hn, hparse, hes⟩ := h p
  obtain ⟨q', hpass⟩ := (hpass.append harguments).single rfl (by decide) (by decide)
  exact ⟨.ofCall ⟨.word, f.name, l.position⟩ ⟨.openParen, "(", p₀⟩ ⟨.closeParen, ")", q⟩ ts f es rfl
    (Builtin.ofName?_name f) rfl rfl hn hparse (harity es hes), _, hpass, hP es hes⟩

/-! ### Commas -/

theorem findsOperands_nil (hl : l.rest = rest) (h : Q []) : FindsOperands l Q rest :=
  ⟨[], [], l.position, .start hl, nested_nil, by
    show parseParts Template.parse [] = _
    rw [parseParts], h⟩

theorem findsOperands_singleton (h : FindsOperand l P rest) (hQ : ∀ e, P e → Q [e]) :
    FindsOperands l Q rest := by
  obtain ⟨o, p, hpass, ho⟩ := h
  refine ⟨o.tokens, [o.tree], p, hpass, o.nested, ?_, hQ _ ho⟩
  rw [parts_single o.tokens_ne_nil o.splitCommas_eq, parseParts, o.parseSpan_tokens, parseParts]
  rfl

theorem findsOperands_cons (h : FindsOperand l P (',' :: cs))
    (h' : ∀ p, FindsOperands ⟨cs, p⟩ Q rest) (hne : ¬ Q [])
    (hQ : ∀ e es, P e → Q es → Q' (e :: es)) : FindsOperands l Q' rest := by
  obtain ⟨o, p, hpass, ho⟩ := h
  obtain ⟨q, hpass⟩ := hpass.single rfl (by decide) (by decide)
  obtain ⟨ts, es, q', hitems, hn, hparse, hes⟩ := h' q
  have hts : ts ≠ [] := by
    rintro rfl
    have hnil : parseParts Template.parse (parts []) = .ok [] := by
      show parseParts Template.parse [] = _
      rw [parseParts]
    obtain rfl := Except.ok.inj (hnil.symm.trans hparse)
    exact hne hes
  have htokens := hpass.append hitems
  rw [List.append_assoc] at htokens
  refine ⟨_, o.tree :: es, q', htokens, o.nested.append (.cons (isPlain_comma rfl) hn), ?_,
    hQ _ _ ho hes⟩
  show parseParts Template.parse (parts (o.tokens ++ _ :: ts)) = _
  rw [parts_comma o.splitCommas_eq o.nested rfl hts, parseParts, o.parseSpan_tokens, hparse]
  rfl

end

end Formulary
