import Formulary.Expr.Parser
import Formulary.Proofs.Except
import Formulary.Proofs.Span

/-! The grammar of formulas.

`Derives` says which spans can be read as which expressions. It knows brackets, operators
and commas but no precedence, so one span may have several readings; the parser picks
one of them. `derives_of_parseSpan`: whatever the parser returns on a nested span is
a reading of the whole span. -/
namespace Formulary

/-- What a span can be read as. -/
inductive Phrase where
  | expr (e : Expr)
  /-- Expressions with commas between them; none for an empty span. -/
  | items (es : List Expr)
  /-- The bindings of a `where`, with commas between them. -/
  | bindings (bs : List (String × Expr))

section
variable (literal : String → Except ParseError Template)

inductive Derives : List Token → Phrase → Prop where
  | name {t : Token} : t.kind = .word → t.isOperator = false →
      Derives [t] (.expr (.name t.text))
  | integer {t : Token} {n : Int64} : t.kind = .integer → integer? t.text = some n →
      Derives [t] (.expr (.integer n))
  | text {t : Token} {template : Template} : t.kind = .text →
      literal (unquote t.text) = .ok template → Derives [t] (.expr template.toExpr)
  | unary {op : Token} {u : UnaryOp} {span : List Token} {e : Expr} : op.isOperator = true →
      UnaryOp.ofSymbol? op.text = some u → Derives span (.expr e) →
      Derives (op :: span) (.expr (.unary u e))
  | binary {op : Token} {b : BinaryOp} {left right : List Token} {l r : Expr} :
      op.isOperator = true → BinaryOp.ofSymbol? op.text = some b →
      Derives left (.expr l) → Derives right (.expr r) →
      Derives (left ++ op :: right) (.expr (.binary b l r))
  | member {op : Token} {left right : List Token} {l r : Expr} : op.isOperator = true →
      op.text = "." → Derives left (.expr l) → Derives right (.expr r) →
      Derives (left ++ op :: right) (.expr (.member l r))
  | clauses {op : Token} {left right : List Token} {body : Expr} {bs : List (String × Expr)} :
      op.isOperator = true → op.text = "where" →
      Derives left (.expr body) → Derives right (.bindings bs) →
      Derives (left ++ op :: right) (.expr (.clauses body bs))
  | group {opening closing : Token} {span : List Token} {e : Expr} : opening.kind = .openParen →
      closing.kind = .closeParen → Derives span (.expr e) →
      Derives (opening :: (span ++ [closing])) (.expr e)
  | list {opening closing : Token} {span : List Token} {es : List Expr} :
      opening.kind = .openBracket → closing.kind = .closeBracket → Derives span (.items es) →
      Derives (opening :: (span ++ [closing])) (.expr (.list es))
  | call {word opening closing : Token} {f : Builtin} {span : List Token} {es : List Expr} :
      word.kind = .word → Builtin.ofName? word.text = some f →
      opening.kind = .openParen → closing.kind = .closeParen →
      f.arity.accepts es.length = true → Derives span (.items es) →
      Derives (word :: opening :: (span ++ [closing])) (.expr (.call f es))
  | noItem : Derives [] (.items [])
  | lastItem {span : List Token} {e : Expr} : Derives span (.expr e) → Derives span (.items [e])
  | moreItems {comma : Token} {span rest : List Token} {e : Expr} {es : List Expr} :
      comma.kind = .comma → es ≠ [] → Derives span (.expr e) → Derives rest (.items es) →
      Derives (span ++ comma :: rest) (.items (e :: es))
  | lastBinding {word equal : Token} {span : List Token} {e : Expr} : word.kind = .word →
      word.isOperator = false → equal.kind = .operator → equal.text = "=" →
      Derives span (.expr e) → Derives (word :: equal :: span) (.bindings [(word.text, e)])
  | moreBindings {word equal comma : Token} {span rest : List Token} {e : Expr}
      {bs : List (String × Expr)} : word.kind = .word → word.isOperator = false →
      equal.kind = .operator → equal.text = "=" → comma.kind = .comma →
      bs ≠ [] → word.text ∉ bs.map Prod.fst →
      Derives span (.expr e) → Derives rest (.bindings bs) →
      Derives (word :: equal :: (span ++ comma :: rest)) (.bindings ((word.text, e) :: bs))

end

/-! ### What the readers of single tokens and bindings accept -/

section
variable {literal : String → Except ParseError Template} {t op name : Token}
  {span inner value left right : List Token} {e : Expr} {es : List Expr} {bs : List (String × Expr)}

theorem derives_of_parseAtom (hop : t.isOperator = false) (h : parseAtom literal t = .ok e) :
    Derives literal [t] (.expr e) := by
  unfold parseAtom at h
  split at h
  · next hk => exact Except.ok.inj h ▸ .name hk hop
  · next hk =>
    split at h
    · next n hn => exact Except.ok.inj h ▸ .integer hk hn
    · cases h
  · next hk =>
    obtain ⟨template, ht, rfl⟩ := map_eq_ok_iff.1 h
    exact .text hk ht
  · cases h

theorem readBinding_eq_ok {clause : List Token} {bound : String}
    (h : readBinding clause = .ok (bound, value)) :
    ∃ word equal, clause = word :: equal :: value ∧ word.text = bound ∧ word.kind = .word ∧
      word.isOperator = false ∧ equal.kind = .operator ∧ equal.text = "=" := by
  unfold readBinding at h
  split at h
  · cases h
  · next word equal behind =>
    split at h
    · next heq =>
      split at h
      · cases h
      · next hname =>
        split at h
        · cases h
        · cases h
          simp only [Bool.and_eq_true, decide_eq_true_eq] at heq
          simp only [Bool.or_eq_true, decide_eq_true_eq, not_or, Decidable.not_not,
            Bool.not_eq_true] at hname
          exact ⟨word, equal, rfl, rfl, hname.1, hname.2, heq.1, heq.2⟩
    · cases h
  · cases h

theorem readBinding_subset {clause : List Token} {bound : String}
    (h : readBinding clause = .ok (bound, value)) : value ⊆ clause := by
  obtain ⟨word, equal, rfl, -⟩ := readBinding_eq_ok h
  exact List.Subset.trans (List.subset_cons_self equal value) (List.subset_cons_self word _)

theorem resolve_eq_ok {spelling : String} {count : Nat} {f : Builtin}
    (h : Builtin.resolve spelling count = .ok f) :
    Builtin.ofName? spelling = some f ∧ f.arity.accepts count = true := by
  unfold Builtin.resolve at h
  split at h
  · cases h
  · next g hg =>
    split at h
    · next hacc =>
      cases h
      exact ⟨hg, hacc⟩
    · cases h

/-! ### What the parser returns is derived -/

theorem isPlain_of_kind_operator (h : t.kind = .operator) : t.IsPlain := by
  simp [Token.IsPlain, Token.opens, Token.closes, h]

theorem nested_value {word equal : Token} (h : Nested (word :: equal :: value))
    (hw : word.kind = .word) (he : equal.kind = .operator) : Nested value :=
  Nested.of_cons (Nested.of_cons h (Token.isPlain_of_kind_word hw)) (isPlain_of_kind_operator he)

section
variable {bound : List String} {clause : List Token} {clauses : List (List Token)} {b : String}

theorem parseBindings_cons_of_error {err : ParseError} (h : readBinding clause = .error err) :
    parseBindings literal bound (clause :: clauses) = .error err := by
  rw [parseBindings]
  split <;> simp_all

theorem parseBindings_cons_of_mem (h : readBinding clause = .ok (b, value)) (hb : b ∈ bound) :
    parseBindings literal bound (clause :: clauses) = .error (.duplicateBinding b) := by
  rw [parseBindings]
  split <;> simp_all

theorem parseBindings_cons_of_not_mem (h : readBinding clause = .ok (b, value)) (hb : b ∉ bound) :
    parseBindings literal bound (clause :: clauses) =
      (do
        return (b, ← parseSpan literal value) ::
          (← parseBindings literal (b :: bound) clauses)) := by
  rw [parseBindings]
  split <;> simp_all

end

theorem parseParts_cons_eq_ok {spans : List (List Token)}
    (h : parseParts literal (span :: spans) = .ok es) :
    ∃ e rest, parseSpan literal span = .ok e ∧ parseParts literal spans = .ok rest ∧
      es = e :: rest := by
  rw [parseParts] at h
  obtain ⟨e, he, h⟩ := bind_eq_ok_iff.1 h
  obtain ⟨rest, hrest, h⟩ := bind_eq_ok_iff.1 h
  exact ⟨e, rest, he, hrest, (Except.ok.inj h).symm⟩

theorem parseBindings_cons_eq_ok {bound : List String} {clause : List Token}
    {clauses : List (List Token)} (h : parseBindings literal bound (clause :: clauses) = .ok bs) :
    ∃ b value e rest, readBinding clause = .ok (b, value) ∧ b ∉ bound ∧
      parseSpan literal value = .ok e ∧ parseBindings literal (b :: bound) clauses = .ok rest ∧
      bs = (b, e) :: rest := by
  rw [parseBindings] at h
  split at h
  · cases h
  · next b value hread =>
    split at h
    · cases h
    · next hbound =>
      obtain ⟨e, he, h⟩ := bind_eq_ok_iff.1 h
      obtain ⟨rest, hrest, h⟩ := bind_eq_ok_iff.1 h
      exact ⟨b, value, e, rest, hread, by simpa using hbound, he, hrest, (Except.ok.inj h).symm⟩

/-- A `where` that nothing follows is refused. -/
theorem parseSpan_nothing_follows (h : Shape.of span = .binary left op []) (hop : op.text = "where") :
    parseSpan literal span =
      (parseSpan literal left >>= fun _ => .error (.malformedWhere .nothingFollows)) := by
  rw [parseSpan]
  split <;> simp_all
  rfl

theorem parseSpan_ne_ok_of_where (hs : Shape.of span = .binary left op [])
    (hop : op.text = "where") (e : Expr) : parseSpan literal span ≠ .ok e := by
  intro h
  rw [parseSpan_nothing_follows hs hop] at h
  obtain ⟨_, -, h⟩ := bind_eq_ok_iff.1 h
  cases h

theorem joined_parts (h : span ≠ []) : Joined (parts span) span := by
  rw [parts, if_neg (by simpa using h)]
  exact joined_splitCommas 0 span

theorem parts_subset (span : List Token) : ∀ part ∈ parts span, part ⊆ span := by
  unfold parts
  split
  · exact fun _ hp => nomatch hp
  · exact (joined_splitCommas 0 span).subset

theorem nested_of_parts (h : Nested span) : ∀ part ∈ parts span, Nested part := by
  unfold parts
  split
  · exact fun _ hp => nomatch hp
  · exact nested_of_splitCommas h

/-! Several parts are read one by one; the first of them derives in front of the rest. -/

theorem Derives.items_cons {part : List Token} {spans : List (List Token)}
    (hj : Joined (part :: spans) span) (he : Derives literal part (.expr e))
    (hnil : spans = [] → es = [])
    (hrest : ∀ span, Joined spans span → es ≠ [] ∧ Derives literal span (.items es)) :
    Derives literal span (.items (e :: es)) := by
  cases hj with
  | last => exact hnil rfl ▸ .lastItem he
  | more _ hcomma hj =>
    obtain ⟨hne, hes⟩ := hrest _ hj
    exact .moreItems hcomma hne he hes

theorem Derives.bindings_cons {word equal : Token} {clauses : List (List Token)}
    {bound : List String} (hj : Joined ((word :: equal :: value) :: clauses) span)
    (hw : word.kind = .word) (hop : word.isOperator = false) (hk : equal.kind = .operator)
    (ht : equal.text = "=") (hbound : word.text ∉ bound) (he : Derives literal value (.expr e))
    (hnil : clauses = [] → bs = [])
    (hrest : ∀ span, Joined clauses span → bs ≠ [] ∧ (∀ b ∈ bs, b.1 ∉ word.text :: bound) ∧
      Derives literal span (.bindings bs)) :
    (∀ b ∈ (word.text, e) :: bs, b.1 ∉ bound) ∧
      Derives literal span (.bindings ((word.text, e) :: bs)) := by
  cases hj with
  | last =>
    obtain rfl := hnil rfl
    exact ⟨List.forall_mem_singleton.2 hbound, .lastBinding hw hop hk ht he⟩
  | more _ hcomma hj =>
    obtain ⟨hne, hnew, hbs⟩ := hrest _ hj
    refine ⟨List.forall_mem_cons.2 ⟨hbound, fun b hb hmem => ?_⟩,
      .moreBindings hw hop hk ht hcomma hne (fun hmem => ?_) he hbs⟩
    · exact hnew b hb (List.mem_cons_of_mem _ hmem)
    · obtain ⟨b, hb, hname⟩ := List.mem_map.1 hmem
      exact hnew b hb (hname ▸ List.mem_cons_self)

/-- Whatever the parser returns on nested spans is derived from them. -/
theorem derives_of_parse :
    (∀ span, Nested span → ∀ e, parseSpan literal span = .ok e → Derives literal span (.expr e)) ∧
    (∀ spans, (∀ part ∈ spans, Nested part) → ∀ span es, Joined spans span →
      parseParts literal spans = .ok es → es ≠ [] ∧ Derives literal span (.items es)) ∧
    (∀ bound clauses, (∀ part ∈ clauses, Nested part) → ∀ span bs, Joined clauses span →
      parseBindings literal bound clauses = .ok bs →
        bs ≠ [] ∧ (∀ b ∈ bs, b.1 ∉ bound) ∧ Derives literal span (.bindings bs)) := by
  have covers {span : List Token} {form : Shape} (hs : Shape.of span = form) (hn : Nested span) :
      form.Covers span := hs ▸ Shape.covers_of hn
  have items {inner : List Token} {es : List Expr} (hn : Nested inner)
      (ih : (∀ part ∈ parts inner, Nested part) → ∀ span es, Joined (parts inner) span →
        parseParts literal (parts inner) = .ok es → es ≠ [] ∧ Derives literal span (.items es))
      (h : parseParts literal (parts inner) = .ok es) : Derives literal inner (.items es) := by
    by_cases hnil : inner = []
    · subst hnil
      rw [show parts [] = [] from rfl, parseParts] at h
      exact Except.ok.inj h ▸ .noItem
    · exact (ih (nested_of_parts hn) inner es (joined_parts hnil) h).2
  apply parseSpan.mutual_induct
  -- The forms that are refused.
  case case1 =>
    intro span hs _ e h
    rw [parseSpan_empty hs] at h
    cases h
  case case2 =>
    intro span op operand hs hu _ e h
    rw [parseSpan_not_unary hs hu] at h
    cases h
  case case6 =>
    intro span left op right hs _ hdot hwhere hb _ e h
    rw [parseSpan_not_binary hs hdot hwhere hb] at h
    cases h
  case case11 =>
    intro span name inner hs _ hf _ e h
    rw [parseSpan_not_function hs hf] at h
    cases h
  case case13 =>
    intro span hs _ e h
    rw [parseSpan_other hs] at h
    cases h
  -- Spans with an operator to cut at.
  case case3 =>
    intro span op operand hs u hu _ ih hn e h
    obtain ⟨rfl, hop, hin⟩ := covers hs hn
    rw [parseSpan_unary hs hu] at h
    obtain ⟨e', he, rfl⟩ := map_eq_ok_iff.1 h
    exact .unary hop hu (ih hin e' he)
  case case4 =>
    intro span left op right hs _ hdot ihl ihr hn e h
    obtain ⟨rfl, hop, hl, hr⟩ := covers hs hn
    rw [parseSpan_member hs hdot] at h
    obtain ⟨l, hl', h⟩ := bind_eq_ok_iff.1 h
    obtain ⟨r, hr', h⟩ := bind_eq_ok_iff.1 h
    exact Except.ok.inj h ▸ .member hop hdot (ihl hl l hl') (ihr hr r hr')
  case case5 =>
    intro span left op right hs _ hdot hwhere ihl ihr hn e h
    obtain ⟨rfl, hop, hl, hr⟩ := covers hs hn
    by_cases hright : right = []
    · subst hright
      exact absurd h (parseSpan_ne_ok_of_where hs hwhere e)
    · rw [parseSpan_clauses hs hwhere hright] at h
      obtain ⟨body, hbody, h⟩ := bind_eq_ok_iff.1 h
      obtain ⟨bs, hbs, h⟩ := bind_eq_ok_iff.1 h
      obtain ⟨-, -, hd⟩ := ihr (nested_of_parts hr) right bs (joined_parts hright) hbs
      exact Except.ok.inj h ▸ .clauses hop hwhere (ihl hl body hbody) hd
  case case7 =>
    intro span left op right hs _ _ _ b hb ihl ihr hn e h
    obtain ⟨rfl, hop, hl, hr⟩ := covers hs hn
    rw [parseSpan_binary hs hb] at h
    obtain ⟨l, hl', h⟩ := bind_eq_ok_iff.1 h
    obtain ⟨r, hr', h⟩ := bind_eq_ok_iff.1 h
    exact Except.ok.inj h ▸ .binary hop hb (ihl hl l hl') (ihr hr r hr')
  -- Spans without one.
  case case8 =>
    intro span t hs hn e h
    obtain ⟨rfl, hop⟩ := covers hs hn
    rw [parseSpan_atom hs] at h
    exact derives_of_parseAtom hop h
  case case9 =>
    intro span inner hs _ ih hn e h
    obtain ⟨opening, closing, rfl, ho, hc, hin⟩ := covers hs hn
    rw [parseSpan_group hs] at h
    exact .group ho hc (ih hin e h)
  case case10 =>
    intro span inner hs _ ih hn e h
    obtain ⟨opening, closing, rfl, ho, hc, hin⟩ := covers hs hn
    rw [parseSpan_list hs] at h
    obtain ⟨es, hes, rfl⟩ := map_eq_ok_iff.1 h
    exact .list ho hc (items hin ih hes)
  case case12 =>
    intro span name inner hs _ hf ih hn e h
    obtain ⟨opening, closing, rfl, hword, ho, hc, hin⟩ := covers hs hn
    obtain ⟨f, hf⟩ := Option.ne_none_iff_exists'.1 (by simpa using hf)
    rw [parseSpan_call hs hf] at h
    obtain ⟨es, hes, h⟩ := bind_eq_ok_iff.1 h
    obtain ⟨g, hg, h⟩ := bind_eq_ok_iff.1 h
    obtain ⟨hname, hacc⟩ := resolve_eq_ok hg
    exact Except.ok.inj h ▸ .call hword hname ho hc hacc (items hin ih hes)
  -- Parts between commas.
  case case14 =>
    intro _ span es hj
    cases hj
  case case15 =>
    intro part spans ihe ihs hn span es hj h
    obtain ⟨e, rest, he, hrest, rfl⟩ := parseParts_cons_eq_ok h
    have hd := ihe (hn part List.mem_cons_self) e he
    refine ⟨List.cons_ne_nil _ _, Derives.items_cons hj hd (fun hnil => ?_) fun span hj => ?_⟩
    · rw [hnil, parseParts] at hrest
      exact (Except.ok.inj hrest).symm
    · exact ihs (fun p hp => hn p (List.mem_cons_of_mem _ hp)) span rest hj hrest
  case case16 =>
    intro bound _ span bs hj
    cases hj
  case case17 =>
    intro bound clause clauses err hread _ span bs _ h
    obtain ⟨b, value, e, rest, hread', -⟩ := parseBindings_cons_eq_ok h
    rw [hread] at hread'
    cases hread'
  case case18 =>
    intro bound clause clauses b value hread _ hbound _ span bs _ h
    obtain ⟨b', value', e, rest, hread', hb', -⟩ := parseBindings_cons_eq_ok h
    rw [hread] at hread'
    cases hread'
    exact absurd (by simpa using hbound) hb'
  case case19 =>
    intro bound clause clauses b value hread _ _ ihe ihs hn span bs hj h
    obtain ⟨b', value', e, rest, hread', hb', he, hrest, rfl⟩ := parseBindings_cons_eq_ok h
    rw [hread] at hread'
    cases hread'
    obtain ⟨word, equal, rfl, rfl, hw, hop, hk, ht⟩ := readBinding_eq_ok hread
    have hd := ihe (nested_value (hn _ List.mem_cons_self) hw hk) e he
    refine ⟨List.cons_ne_nil _ _, Derives.bindings_cons hj hw hop hk ht hb' hd (fun hnil => ?_)
      fun span hj => ?_⟩
    · rw [hnil, parseBindings] at hrest
      exact (Except.ok.inj hrest).symm
    · exact ihs (fun p hp => hn p (List.mem_cons_of_mem _ hp)) span rest hj hrest

theorem derives_of_parseSpan (hn : Nested span) (h : parseSpan literal span = .ok e) :
    Derives literal span (.expr e) :=
  derives_of_parse.1 span hn e h

/-- Where the brackets match, the span is read. -/
theorem parseTokens_of_nested (h : Nested span) :
    parseTokens literal span = parseSpan literal span := by
  rw [parseTokens, (nested_iff span).1 h]

/-- Brackets are checked before, and by themselves. -/
theorem parseTokens_eq_ok_iff :
    parseTokens literal span = .ok e ↔ Nested span ∧ parseSpan literal span = .ok e := by
  rw [nested_iff, parseTokens]
  cases firstUnmatched [] span <;> simp

theorem derives_of_parseTokens (h : parseTokens literal span = .ok e) :
    Nested span ∧ Derives literal span (.expr e) := by
  obtain ⟨hn, hspan⟩ := parseTokens_eq_ok_iff.1 h
  exact ⟨hn, derives_of_parseSpan hn hspan⟩

/-- A source that is a formula is read as a whole. -/
theorem derives_of_parseSource {source : String} (h : parseSource literal source = .ok e) :
    ∃ tokens, tokenize source = .ok tokens ∧ Nested tokens ∧
      Derives literal tokens (.expr e) := by
  obtain ⟨tokens, htokens, h⟩ := bind_eq_ok_iff.1 h
  exact ⟨tokens, mapError_eq_ok_iff.1 htokens, derives_of_parseTokens h⟩

end

end Formulary
