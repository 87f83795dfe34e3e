import Formulary.Proofs.Finding
import Formulary.Proofs.WellFormed

/-! Trees come back from their formula.

`Expr.render` writes a tree as a formula with everything below an operator, in a call, a
list or a `where` in parentheses, so that no precedence has a say. The parser gives the tree
back (`parse_render`): every tree is the tree of some formula, as far as it deals in
numbers that are not negative, texts that can be quoted, names that are words, and calls and
bindings that can be written at all. -/
namespace Formulary

/-! ### Names -/

/-- The words that are names: a `d` before a digit is a token of its own. -/
theorem isName_iff {name : String} :
    IsName name ↔
      (∃ c cs, name.toList = c :: cs ∧ startsWord c = true ∧ ∀ x ∈ cs, continuesWord x = true) ∧
        (∀ x cs, name.toList = 'd' :: x :: cs → Text.isDigit x = false) ∧
        isWordOperator name = false := by
  unfold IsName
  cases hname : name.toList with
  | nil => simp [scan]
  | cons c cs =>
    rw [← and_assoc, and_congr_left_iff]
    intro _
    constructor
    · intro hscan
      obtain ⟨hc, hword⟩ := scan_word hscan cs
      obtain ⟨hcs, hd⟩ := (Scan.word_eq_whole_iff hc).1 (hword.symm.trans hscan)
      exact ⟨⟨c, cs, rfl, hc, hcs⟩, hd⟩
    · rintro ⟨⟨c', cs', heq, hc, hcs⟩, hd⟩
      obtain ⟨rfl, rfl⟩ := List.cons.inj heq
      rw [scan_of_startsWord hc]
      exact (Scan.word_eq_whole_iff hc).2 ⟨hcs, hd⟩

namespace Expr

/-! ### Formulas for trees -/

/-- In parentheses. -/
def grouped (formula : String) : String := "(" ++ formula ++ ")"

mutual

/-- A formula for the tree. What is put into a text is left out. -/
def render : Expr → String
  | integer n => toString n.toInt
  | text s _ => "'" ++ s ++ "'"
  | list items => "[" ++ ",".intercalate (renderItems items) ++ "]"
  | name n => n
  | unary op operand => op.symbol ++ " " ++ grouped operand.render
  | binary op left right => grouped left.render ++ " " ++ op.symbol ++ " " ++ grouped right.render
  | member subject selector => grouped subject.render ++ " . " ++ grouped selector.render
  | call f arguments => f.name ++ grouped (",".intercalate (renderItems arguments))
  | clauses body bindings =>
    grouped body.render ++ " where " ++ ", ".intercalate (renderBindings bindings)

def renderItems : List Expr → List String
  | [] => []
  | e :: rest => grouped e.render :: renderItems rest

def renderBindings : List (String × Expr) → List String
  | [] => []
  | (bound, e) :: rest => (bound ++ "=" ++ grouped e.render) :: renderBindings rest

end

/-- The trees that have a formula: what is well formed, with texts that can be quoted and
have nothing put into them. -/
inductive Renderable : Expr → Prop where
  | integer {n : Int64} (h : 0 ≤ n.toInt) : Renderable (.integer n)
  | text {s : String} (hquote : '\'' ∉ s.toList) (hbrace : '{' ∉ s.toList) :
      Renderable (.text s [])
  | list {items : List Expr} (h : ∀ e ∈ items, e.Renderable) : Renderable (.list items)
  | name {n : String} (h : IsName n) : Renderable (.name n)
  | unary {op : UnaryOp} {operand : Expr} (h : operand.Renderable) :
      Renderable (.unary op operand)
  | binary {op : BinaryOp} {left right : Expr} (hl : left.Renderable) (hr : right.Renderable) :
      Renderable (.binary op left right)
  | member {subject selector : Expr} (hs : subject.Renderable) (h : selector.Renderable) :
      Renderable (.member subject selector)
  | call {f : Builtin} {arguments : List Expr} (harity : f.arity.accepts arguments.length = true)
      (h : ∀ e ∈ arguments, e.Renderable) : Renderable (.call f arguments)
  | clauses {body : Expr} {bindings : List (String × Expr)} (hbody : body.Renderable)
      (hne : bindings ≠ []) (hdistinct : (bindings.map Prod.fst).Nodup)
      (hnames : ∀ b ∈ bindings, IsName b.1) (h : ∀ b ∈ bindings, b.2.Renderable) :
      Renderable (.clauses body bindings)

/-- Wherever the formula of the tree stands, up to a character that no word goes on with,
it is read as the tree. -/
def ReadsBack (e : Expr) : Prop :=
  ∀ (l : Lexer) (rest : List Char), l.rest = e.render.toList ++ rest → EndsWord rest →
    FindsSpan l (· = e) rest

end Expr

variable {l : Lexer} {rest : List Char} {e : Expr}

theorem Expr.toList_grouped (formula : String) :
    (grouped formula).toList = '(' :: (formula.toList ++ [')']) := by
  simp [grouped]

theorem Expr.ReadsBack.findsAtom (h : e.ReadsBack)
    (hl : l.rest = '(' :: (e.render.toList ++ ')' :: rest)) : FindsAtom l (· = e) rest :=
  findsAtom_group hl fun _ => h _ _ rfl (endsWord_cons rfl _)

/-- Behind something else. -/
theorem Expr.ReadsBack.findsAtom_at (h : e.ReadsBack) (rest : List Char) (p : Nat) :
    FindsAtom ⟨'(' :: (e.render.toList ++ ')' :: rest), p⟩ (· = e) rest :=
  h.findsAtom rfl

theorem findsAtom_name {n : String} (h : IsName n) (hl : l.rest = n.toList ++ rest)
    (hrest : EndsWord rest) : FindsAtom l (· = .name n) rest := by
  obtain ⟨p, hpass⟩ := (Lexer.Passes.start hl).scan (scan_word_append h.1 hrest) (by decide)
    (by decide)
  rw [String.ofList_toList] at hpass
  have hop : Token.isOperator ⟨.word, n, l.position⟩ = false := h.2
  exact ⟨.ofToken ⟨.word, n, l.position⟩ (.name n) hop (.inl rfl) rfl, p, hpass, rfl⟩

/-! ### Items -/

theorem findsOperands_renderItems {items : List Expr} (h : ∀ e ∈ items, e.ReadsBack)
    (hl : l.rest = (",".intercalate (Expr.renderItems items)).toList ++ rest) :
    FindsOperands l (· = items) rest := by
  induction items generalizing l with
  | nil => exact findsOperands_nil (by simpa [Expr.renderItems] using hl) rfl
  | cons e items ih =>
    obtain ⟨he, hitems⟩ := List.forall_mem_cons.1 h
    cases items with
    | nil =>
      have hl' : l.rest = '(' :: (e.render.toList ++ ')' :: rest) := by
        simpa [Expr.renderItems, Expr.toList_grouped] using hl
      exact findsOperands_singleton (he.findsAtom hl').operand fun _ => congrArg ([·])
    | cons e' items =>
      have hl' : l.rest = '(' :: (e.render.toList ++ ')' ::
          ',' :: ((",".intercalate (Expr.renderItems (e' :: items))).toList ++ rest)) := by
        rw [hl, Expr.renderItems, Expr.renderItems, String.intercalate_cons_cons]
        simp [Expr.toList_grouped]
      exact findsOperands_cons (he.findsAtom hl').operand (fun p => ih hitems rfl)
        (List.cons_ne_nil _ _ ·.symm) fun _ _ he hes => by rw [he, hes]

/-! ### Operators -/

/-- The kind of token that an operator is. -/
def operatorKind (spelling : String) : TokenKind :=
  if isWordOperator spelling then .word else .operator

/-- Before a space the spelling is found as an operator. -/
def IsSpelling (spelling : String) : Prop :=
  ∀ rest, scan (spelling.toList ++ ' ' :: rest) =
    .lexeme (operatorKind spelling) spelling.toList (' ' :: rest)

theorem UnaryOp.isSpelling (op : UnaryOp) : IsSpelling op.symbol := by
  intro rest
  cases op <;> rfl

theorem Joint.isSpelling (j : Joint) : IsSpelling j.spelling := by
  intro rest
  cases j with
  | member => rfl
  | binary op => cases op <;> rfl

theorem isOperator_operatorKind (spelling : String) (offset : Nat) :
    Token.isOperator ⟨operatorKind spelling, spelling, offset⟩ = true := by
  cases h : isWordOperator spelling <;> simp [Token.isOperator, operatorKind, h]

theorem operatorKind_ne (spelling : String) :
    operatorKind spelling ≠ .finish ∧ operatorKind spelling ≠ .blank := by
  unfold operatorKind
  split <;> decide

/-- A spelling and the space behind it. -/
theorem Lexer.Passes.operator {ts : List Token} {spelling : String} {cs : List Char} {p : Nat}
    (h : l.Passes ts ⟨spelling.toList ++ ' ' :: cs, p⟩) (hs : IsSpelling spelling)
    (hcs : ∀ c ∈ cs.head?, Text.isBlank c = false) :
    ∃ (t : Token) (q : Nat), t.text = spelling ∧ t.isOperator = true ∧
      l.Passes (ts ++ [t]) ⟨cs, q⟩ := by
  obtain ⟨hfinish, hblank⟩ := operatorKind_ne spelling
  obtain ⟨q, hpass⟩ := h.scan (hs _) hfinish hblank
  rw [String.ofList_toList] at hpass
  obtain ⟨q', hpass⟩ := hpass.space hcs
  exact ⟨_, q', rfl, isOperator_operatorKind spelling p, hpass⟩

/-- A spelling between two spaces. -/
theorem Lexer.Passes.between {ts : List Token} {spelling : String} {cs : List Char} {p : Nat}
    (h : l.Passes ts ⟨' ' :: (spelling.toList ++ ' ' :: cs), p⟩) (hs : IsSpelling spelling)
    (hcs : ∀ c ∈ cs.head?, Text.isBlank c = false) :
    ∃ (t : Token) (q : Nat), t.text = spelling ∧ t.isOperator = true ∧
      l.Passes (ts ++ [t]) ⟨cs, q⟩ := by
  obtain ⟨q, hpass⟩ := h.space (not_blank_of_scan (hs _) (operatorKind_ne spelling).2)
  exact hpass.operator hs hcs

theorem not_blank_paren {cs : List Char} : ∀ c ∈ ('(' :: cs).head?, Text.isBlank c = false :=
  fun _ hc => Option.some.inj hc ▸ rfl

theorem readsBack_unary {op : UnaryOp} (h : e.ReadsBack) : (Expr.unary op e).ReadsBack := by
  intro l rest hl _
  have hl' : l.rest =
      op.symbol.toList ++ ' ' :: '(' :: (e.render.toList ++ ')' :: rest) := by
    simpa [Expr.render, Expr.toList_grouped] using hl
  obtain ⟨t, p, htext, hop, hpass⟩ := (Lexer.Passes.start hl').operator op.isSpelling not_blank_paren
  obtain ⟨a, q, hoperand, rfl⟩ := h.findsAtom_at rest p
  have hfound : FindsOperand l (· = .unary op a.tree) rest :=
    ⟨⟨[⟨t, op, hop, htext⟩], a⟩, q, hpass.append hoperand, rfl⟩
  exact hfound.span

/-- A chain of two atoms. -/
theorem Chain.parseSpan_pair (a b : Atom Template.parse) (j : JointToken) :
    parseSpan Template.parse (a.span ++ j.token :: b.span) = .ok (j.joint.apply a.tree b.tree) := by
  have hparse := parseSpan_chain ⟨⟨[], a⟩, [(j, ⟨[], b⟩)]⟩
  have hclimb : (mk ⟨[], a⟩ [(j, ⟨[], b⟩)]).climb.1 = j.joint.apply a.tree b.tree := by
    rw [climb_eq]
    show climbed 0 [] a.tree ([] ++ ⟨j.joint, [], b.tree⟩ :: []) = _
    rw [climbed_append_cons ⟨by simp, by simp⟩ (by simp), climbed_no_links, climbed_no_links]
    rfl
  rw [hclimb] at hparse
  simpa [tokens, linkTokens, Operand.tokens] using hparse

theorem findsSpan_joint {left right : Expr} (j : Joint) (hl : left.ReadsBack)
    (hr : right.ReadsBack)
    (h : l.rest = (Expr.grouped left.render ++ " " ++ j.spelling ++ " " ++
      Expr.grouped right.render).toList ++ rest) :
    FindsSpan l (· = j.apply left right) rest := by
  have h' : l.rest = '(' :: (left.render.toList ++ ')' :: ' ' :: (j.spelling.toList ++
      ' ' :: '(' :: (right.render.toList ++ ')' :: rest))) := by
    simpa [Expr.toList_grouped] using h
  obtain ⟨a, p, hpass, rfl⟩ := hl.findsAtom h'
  obtain ⟨t, q, htext, hop, hpass⟩ := hpass.between j.isSpelling not_blank_paren
  obtain ⟨b, q', hright, rfl⟩ := hr.findsAtom_at rest q
  have htokens := hpass.append hright
  rw [List.append_assoc] at htokens
  exact ⟨_, _, q', htokens,
    a.isAtom.nested.append (.cons (Token.isPlain_of_isOperator hop) b.isAtom.nested),
    Chain.parseSpan_pair a b ⟨t, j, hop, htext⟩, rfl⟩

/-! ### Bindings -/

section
variable {name equal : Token} {value : List Token}

theorem nested_binding (hw : name.kind = .word) (hk : equal.kind = .operator) (h : Nested value) :
    Nested (name :: equal :: value) :=
  .cons (Token.isPlain_of_kind_word hw) (.cons (isPlain_of_kind_operator hk) h)

theorem splitCommas_binding (hw : name.kind = .word) (hk : equal.kind = .operator)
    (h : splitCommas 0 value = [value]) :
    splitCommas 0 (name :: equal :: value) = [name :: equal :: value] := by
  rw [splitCommas_plain (Token.isPlain_of_kind_word hw) fun _ => by simp [hw],
    splitCommas_plain (isPlain_of_kind_operator hk) fun _ => by simp [hk], h]
  rfl

/-- Of the name and the equality sign only the sign is an operator to cut at. -/
theorem candidates_binding (hw : name.kind = .word) (hop : name.isOperator = false)
    (hk : equal.kind = .operator) (before : Option Token) (start : Nat) :
    candidates before 0 start (name :: equal :: value) =
      (start + 1, equal) :: candidates (some equal) 0 (start + 1 + 1) value := by
  have hword := Token.isPlain_of_kind_word hw
  have hequal := isPlain_of_kind_operator hk
  have hequalOp : equal.isOperator = true := by simp [Token.isOperator, hk]
  have hends : name.endsOperand = true := by simp [Token.endsOperand, hop, hword.1, hw]
  rw [candidates, if_neg (by simp [hword.1]), if_neg (by simp [hword.2]), if_neg (by simp [hop]),
    candidates, if_neg (by simp [hequal.1]), if_neg (by simp [hequal.2]),
    if_pos (by simp [hequalOp, hends])]

theorem readBinding_binding (hw : name.kind = .word) (hop : name.isOperator = false)
    (hk : equal.kind = .operator) (ht : equal.text = "=") (hne : value ≠ []) :
    readBinding (name :: equal :: value) = .ok (name.text, value) := by
  simp [readBinding, hw, hop, hk, ht, hne]

end

/-- The tokens of a binding whose value is an atom. -/
structure Clause where
  name : Token
  equal : Token
  value : Atom Template.parse
  isWord : name.kind = .word
  isName : name.isOperator = false
  isOperator : equal.kind = .operator
  spells : equal.text = "="

namespace Clause

def tokens (c : Clause) : List Token := c.name :: c.equal :: c.value.span

variable (c : Clause)

theorem ne_nil : c.tokens ≠ [] := List.cons_ne_nil _ _

theorem nested : Nested c.tokens :=
  nested_binding c.isWord c.isOperator c.value.isAtom.nested

theorem splitCommas_eq : splitCommas 0 c.tokens = [c.tokens] :=
  splitCommas_binding c.isWord c.isOperator c.value.isAtom.splitCommas_eq

/-- The only operator outside brackets is the equality sign. -/
theorem candidates_eq (before : Option Token) (start : Nat) :
    candidates before 0 start c.tokens = [(start + 1, c.equal)] := by
  rw [tokens, candidates_binding c.isWord c.isName c.isOperator, c.value.isAtom.candidates_eq_nil]

theorem readBinding_eq : readBinding c.tokens = .ok (c.name.text, c.value.span) :=
  readBinding_binding c.isWord c.isName c.isOperator c.spells c.value.isAtom.ne_nil

theorem parseBindings_cons {bound : List String} {clauses : List (List Token)}
    {bs : List (String × Expr)} (hnew : c.name.text ∉ bound)
    (h : parseBindings Template.parse (c.name.text :: bound) clauses = .ok bs) :
    parseBindings Template.parse bound (c.tokens :: clauses) =
      .ok ((c.name.text, c.value.tree) :: bs) := by
  obtain ⟨-, hvalue⟩ := parseTokens_eq_ok_iff.1 c.value.parses
  rw [parseBindings_cons_of_not_mem c.readBinding_eq hnew, hvalue, h]
  rfl

end Clause

/-- Tokens for the bindings, and no operators outside brackets but equality signs. -/
def FindsBindings (l : Lexer) (bound : List String) (bindings : List (String × Expr))
    (rest : List Char) : Prop :=
  ∃ (ts : List Token) (p : Nat), l.Passes ts ⟨rest, p⟩ ∧ Nested ts ∧ ts ≠ [] ∧
    parseBindings Template.parse bound (parts ts) = .ok bindings ∧
    ∀ before start, ∀ c ∈ candidates before 0 start ts, c.2.text = "="

namespace Clause

variable {c : Clause} {bound : List String} {p : Nat}

theorem findsBindings (hnew : c.name.text ∉ bound) (hpass : l.Passes c.tokens ⟨rest, p⟩) :
    FindsBindings l bound [(c.name.text, c.value.tree)] rest := by
  refine ⟨c.tokens, p, hpass, c.nested, c.ne_nil, ?_, fun before start x hx => ?_⟩
  · rw [parts_single c.ne_nil c.splitCommas_eq]
    exact c.parseBindings_cons hnew (by rw [parseBindings])
  · rw [c.candidates_eq] at hx
    rw [List.mem_singleton.1 hx]
    exact c.spells

/-- A binding, a comma and more bindings. -/
theorem findsBindings_cons {bindings : List (String × Expr)} {cs : List Char} {offset : Nat}
    (hnew : c.name.text ∉ bound)
    (hpass : l.Passes (c.tokens ++ [⟨.comma, ",", offset⟩]) ⟨cs, p⟩)
    (h : FindsBindings ⟨cs, p⟩ (c.name.text :: bound) bindings rest) :
    FindsBindings l bound ((c.name.text, c.value.tree) :: bindings) rest := by
  obtain ⟨ts, q, hrest, hn, hne, hparse, hcandidates⟩ := h
  have htokens := hpass.append hrest
  rw [List.append_assoc] at htokens
  refine ⟨_, q, htokens, c.nested.append (.cons (isPlain_comma rfl) hn), by simp, ?_,
    fun before start x hx => ?_⟩
  · show parseBindings Template.parse bound (parts (c.tokens ++ _ :: ts)) = _
    rw [parts_comma c.splitCommas_eq c.nested rfl hne]
    exact c.parseBindings_cons hnew hparse
  · have hdepth : depthAfter 0 c.tokens = 0 := depthAfter_eq c.nested
    rw [List.singleton_append, candidates_append, c.candidates_eq, hdepth, candidates,
      if_neg (by simp [Token.opens]), if_neg (by simp [Token.closes]),
      if_neg (by simp [Token.isOperator])] at hx
    rcases List.mem_append.1 hx with hx | hx
    · rw [List.mem_singleton.1 hx]
      exact c.spells
    · exact hcandidates _ _ x hx

end Clause

/-- One binding. -/
theorem exists_clause {n : String} (hn : IsName n) (he : e.ReadsBack)
    (hl : l.rest = n.toList ++ '=' :: '(' :: (e.render.toList ++ ')' :: rest)) :
    ∃ (c : Clause) (p : Nat), l.Passes c.tokens ⟨rest, p⟩ ∧ c.name.text = n ∧ c.value.tree = e := by
  obtain ⟨p, hpass⟩ := (Lexer.Passes.start hl).scan
    (scan_word_append hn.1 (endsWord_cons rfl _)) (by decide) (by decide)
  rw [String.ofList_toList] at hpass
  obtain ⟨p', hpass⟩ := hpass.single rfl (by decide) (by decide)
  obtain ⟨a, q, hvalue, htree⟩ := he.findsAtom_at rest p'
  exact ⟨⟨⟨.word, n, l.position⟩, ⟨.operator, "=", p⟩, a, rfl, hn.2, rfl, rfl⟩, q,
    hpass.append hvalue, rfl, htree⟩

theorem exists_toList_intercalate (separator s : String) (ss : List String) :
    ∃ more, (separator.intercalate (s :: ss)).toList = s.toList ++ more := by
  cases ss with
  | nil => exact ⟨[], by simp⟩
  | cons s' ss =>
    refine ⟨(separator ++ separator.intercalate (s' :: ss)).toList, ?_⟩
    rw [String.intercalate_cons_cons, String.append_assoc, String.toList_append]

theorem not_blank_bindings {b : String × Expr} (hn : IsName b.1) (bindings : List (String × Expr))
    {cs : List Char} : ∀ c ∈ ((", ".intercalate (Expr.renderBindings (b :: bindings))).toList ++
      cs).head?, Text.isBlank c = false := by
  obtain ⟨n, e⟩ := b
  have hfirst : (n ++ "=" ++ Expr.grouped e.render).toList =
      n.toList ++ '=' :: (Expr.grouped e.render).toList := by simp
  obtain ⟨more, hmore⟩ := exists_toList_intercalate ", " (n ++ "=" ++ Expr.grouped e.render)
    (Expr.renderBindings bindings)
  rw [Expr.renderBindings, hmore, hfirst, List.append_assoc, List.append_assoc]
  exact not_blank_of_scan (scan_word_append hn.1 (endsWord_cons rfl _)) (by decide)

theorem findsBindings_render {bound : List String} {bindings : List (String × Expr)}
    (hne : bindings ≠ []) (hdistinct : (bindings.map Prod.fst).Nodup)
    (hbound : ∀ b ∈ bindings, b.1 ∉ bound) (hnames : ∀ b ∈ bindings, IsName b.1)
    (h : ∀ b ∈ bindings, b.2.ReadsBack)
    (hl : l.rest = (", ".intercalate (Expr.renderBindings bindings)).toList ++ rest) :
    FindsBindings l bound bindings rest := by
  induction bindings generalizing l bound with
  | nil => exact absurd rfl hne
  | cons b bindings ih =>
    obtain ⟨n, e⟩ := b
    obtain ⟨hn, hnames'⟩ := List.forall_mem_cons.1 hnames
    obtain ⟨he, h'⟩ := List.forall_mem_cons.1 h
    obtain ⟨hnew, hbound'⟩ := List.forall_mem_cons.1 hbound
    obtain ⟨hfresh, hdistinct'⟩ := List.nodup_cons.1 hdistinct
    cases bindings with
    | nil =>
      have hl' : l.rest = n.toList ++ '=' :: '(' :: (e.render.toList ++ ')' :: rest) := by
        simpa [Expr.renderBindings, Expr.toList_grouped] using hl
      obtain ⟨c, p, hpass, rfl, rfl⟩ := exists_clause hn he hl'
      exact Clause.findsBindings hnew hpass
    | cons b bindings =>
      have hl' : l.rest = n.toList ++ '=' :: '(' :: (e.render.toList ++ ')' :: ',' :: ' ' ::
          ((", ".intercalate (Expr.renderBindings (b :: bindings))).toList ++ rest)) := by
        rw [hl, Expr.renderBindings, Expr.renderBindings, String.intercalate_cons_cons]
        simp [Expr.toList_grouped]
      obtain ⟨c, p, hpass, rfl, rfl⟩ := exists_clause hn he hl'
      have hscan : ∀ cs, scan (',' :: cs) = .lexeme .comma [','] cs := fun _ => rfl
      obtain ⟨q, hpass⟩ := hpass.single (hscan _) (by decide) (by decide)
      obtain ⟨q', hpass⟩ := hpass.space (not_blank_bindings (hnames' b List.mem_cons_self) bindings)
      have hbound'' : ∀ b' ∈ b :: bindings, b'.1 ∉ c.name.text :: bound := by
        intro b' hb' hmem
        rcases List.mem_cons.1 hmem with heq | hmem
        · exact hfresh (List.mem_map.2 ⟨b', hb', heq⟩)
        · exact hbound' b' hb' hmem
      exact Clause.findsBindings_cons hnew hpass
        (ih (List.cons_ne_nil _ _) hdistinct' hbound'' hnames' h' rfl)

/-! ### Bodies -/

theorem foldl_looser_eq {first : Nat × Token} {others : List (Nat × Token)}
    (h : ∀ c ∈ others, first.2.strength < c.2.strength) : others.foldl looser first = first := by
  induction others with
  | nil => rfl
  | cons c others ih =>
    obtain ⟨hc, hothers⟩ := List.forall_mem_cons.1 h
    have hfirst : looser first c = first := by
      rw [looser, if_neg (by omega), if_neg (by simp; omega)]
    rw [List.foldl_cons, hfirst, ih hothers]

/-- A `where` binds looser than the equality signs of its bindings. -/
theorem shape_of_where {a : Atom Template.parse} {op : Token} {right : List Token}
    (hop : op.isOperator = true) (htext : op.text = "where")
    (h : ∀ before start, ∀ c ∈ candidates before 0 start right, c.2.text = "=") :
    Shape.of (a.span ++ op :: right) = .binary a.span op right := by
  obtain ⟨last, hlast, hends⟩ := a.isAtom.endsOperand
  have hdepth : depthAfter 0 a.span = 0 := depthAfter_eq a.isAtom.nested
  have hp := Token.isPlain_of_isOperator hop
  have hcandidates : candidates none 0 0 (a.span ++ op :: right) =
      (a.span.length, op) :: candidates (some op) 0 (a.span.length + 1) right := by
    rw [candidates_append, a.isAtom.candidates_eq_nil, hlast, hdepth, Option.some_or, candidates,
      if_neg (by simp [hp.1]), if_neg (by simp [hp.2]), if_pos (by simp [hop, hends]),
      Nat.zero_add, List.nil_append]
  have hsplit : splitPoint (a.span ++ op :: right) = some (a.span.length, op) := by
    rw [splitPoint, hcandidates]
    refine congrArg some (foldl_looser_eq fun c hc => ?_)
    rw [Token.strength, Token.strength, htext, h _ _ c hc]
    decide
  have hfirst : ∀ first ∈ (a.span ++ op :: right).head?, first.isOperator = true →
      op.strength ≤ first.strength := by
    intro first hfirst hop'
    obtain ⟨first', rest', hspan, hnot⟩ := a.isAtom.first_not_isOperator
    simp [hspan] at hfirst
    rw [← hfirst, hnot] at hop'
    cases hop'
  rw [Chain.shape_of_splitPoint hsplit hfirst, List.take_left, ← List.drop_drop, List.drop_left]
  rfl

theorem readsBack_clauses {body : Expr} {bindings : List (String × Expr)} (hbody : body.ReadsBack)
    (hne : bindings ≠ []) (hdistinct : (bindings.map Prod.fst).Nodup)
    (hnames : ∀ b ∈ bindings, IsName b.1) (h : ∀ b ∈ bindings, b.2.ReadsBack) :
    (Expr.clauses body bindings).ReadsBack := by
  intro l rest hl _
  obtain ⟨b, bindings', rfl⟩ := List.exists_cons_of_ne_nil hne
  have hl' : l.rest = '(' :: (body.render.toList ++ ')' :: ' ' :: ("where".toList ++ ' ' ::
      ((", ".intercalate (Expr.renderBindings (b :: bindings'))).toList ++ rest))) := by
    simpa [Expr.render, Expr.toList_grouped] using hl
  obtain ⟨a, p, hpass, rfl⟩ := hbody.findsAtom hl'
  obtain ⟨t, q, htext, hop, hpass⟩ := hpass.between (fun _ => rfl)
    (not_blank_bindings (hnames b List.mem_cons_self) bindings')
  have hfound : FindsBindings ⟨_, q⟩ [] (b :: bindings') rest :=
    findsBindings_render hne hdistinct (fun _ _ => List.not_mem_nil) hnames h rfl
  obtain ⟨ts, q', hrest, hn, hts, hparse, hcandidates⟩ := hfound
  have htokens := hpass.append hrest
  rw [List.append_assoc] at htokens
  refine ⟨_, _, q', htokens, a.isAtom.nested.append (.cons (Token.isPlain_of_isOperator hop) hn),
    ?_, rfl⟩
  obtain ⟨-, hvalue⟩ := parseTokens_eq_ok_iff.1 a.parses
  rw [List.singleton_append, parseSpan_clauses (shape_of_where hop htext hcandidates) htext hts,
    hvalue, hparse]
  rfl

/-! ### Trees -/

theorem Expr.Renderable.readsBack {e : Expr} (h : e.Renderable) : e.ReadsBack := by
  induction h with
  | @integer n hn =>
    intro l rest hl hrest
    have hl' : l.rest = n.toInt.toNat.repr.toList ++ rest := by
      rw [hl, Expr.render, Int.toString_eq_repr, Int.repr_eq_if, if_pos hn]
    have hatom : FindsAtom l (· = .integer n) rest :=
      findsAtom_natural (Int.toNat_of_nonneg hn).symm hl' hrest.endsDigits rfl
    exact hatom.operand.span
  | @text s hquote hbrace =>
    intro l rest hl _
    have hatom : FindsAtom l (· = .text s []) rest := findsAtom_text hquote hbrace hl rfl
    exact hatom.operand.span
  | @list items _ ih =>
    intro l rest hl _
    have hl' : l.rest = '[' :: ((",".intercalate (renderItems items)).toList ++ ']' :: rest) := by
      simpa [render] using hl
    exact (findsAtom_list hl' (fun p => findsOperands_renderItems ih rfl)
      fun _ => congrArg Expr.list).operand.span
  | name hn =>
    intro l rest hl hrest
    exact (findsAtom_name hn hl hrest).operand.span
  | unary _ ih => exact readsBack_unary ih
  | @binary op _ _ _ _ ihl ihr =>
    intro l rest hl _
    exact findsSpan_joint (.binary op) ihl ihr hl
  | member _ _ ihs ih =>
    intro l rest hl _
    refine findsSpan_joint .member ihs ih ?_
    rw [hl]
    simp [render, Joint.spelling]
  | @call f arguments harity _ ih =>
    intro l rest hl _
    have hl' : l.rest = f.name.toList ++
        '(' :: ((",".intercalate (renderItems arguments)).toList ++ ')' :: rest) := by
      simpa [render, toList_grouped] using hl
    exact (findsAtom_call hl' (fun p => findsOperands_renderItems ih rfl)
      (fun es hes => hes ▸ harity) fun _ => congrArg (Expr.call f)).operand.span
  | clauses _ hne hdistinct hnames _ ihbody ih =>
    exact readsBack_clauses ihbody hne hdistinct hnames ih

/-- **A tree is read back from its formula.** -/
theorem parse_render {e : Expr} (h : e.Renderable) : parse e.render = .ok e := by
  have hl : (Lexer.ofString e.render).rest = e.render.toList ++ [] := (List.append_nil _).symm
  obtain ⟨e', hparse, rfl⟩ := (h.readsBack _ _ hl endsWord_nil).exists_parse
  exact hparse

/-- A `where` over a call, a list and a minus under a power. -/
theorem parse_render_where :
    Expr.render (.clauses
      (.call .min [.list [.name "a", .binary .power (.unary .negate (.integer 2)) (.name "b_1")],
        .text "né" []])
      [("a", .member (.name "host") (.name "d_")), ("b_1", .list [])]) =
        "(min(([(a),((- (2)) ^ (b_1))]),('né'))) where a=((host) . (d_)), b_1=([])" ∧
    parse "(min(([(a),((- (2)) ^ (b_1))]),('né'))) where a=((host) . (d_)), b_1=([])" =
      .ok (.clauses
        (.call .min [.list [.name "a", .binary .power (.unary .negate (.integer 2)) (.name "b_1")],
          .text "né" []])
        [("a", .member (.name "host") (.name "d_")), ("b_1", .list [])]) := by
  have hrender : Expr.render (.clauses
      (.call .min [.list [.name "a", .binary .power (.unary .negate (.integer 2)) (.name "b_1")],
        .text "né" []])
      [("a", .member (.name "host") (.name "d_")), ("b_1", .list [])]) =
        "(min(([(a),((- (2)) ^ (b_1))]),('né'))) where a=((host) . (d_)), b_1=([])" := by
    cbv
  refine ⟨hrender, ?_⟩
  rw [← hrender]
  have hminus : (Expr.unary .negate (.integer 2)).Renderable := .unary (.integer (by decide))
  have hlist : (Expr.list [.name "a", .binary .power (.unary .negate (.integer 2))
      (.name "b_1")]).Renderable :=
    .list (by simpa using ⟨.name ⟨rfl, rfl⟩, .binary hminus (.name ⟨rfl, rfl⟩)⟩)
  have hhost : (Expr.member (.name "host") (.name "d_")).Renderable :=
    .member (.name ⟨rfl, rfl⟩) (.name ⟨rfl, rfl⟩)
  refine parse_render (.clauses (.call rfl ?_) (by simp) (by simp) ?_ ?_)
  · simpa using ⟨hlist, .text (by decide) (by decide)⟩
  · simpa using ⟨⟨rfl, rfl⟩, ⟨rfl, rfl⟩⟩
  · simpa using ⟨hhost, .list (by simp)⟩

end Formulary
