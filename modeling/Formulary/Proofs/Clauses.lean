import Formulary.Proofs.Rendering

/-! Chained `where` clauses.

A `where` binds looser than every operator but `not`. So behind a formula with no `where`
outside brackets each `where` takes all that stands before it (`Bearing.where_clause`), and
clauses nest to the left; only a leading `not` stays outside of them
(`ClauseChain.parseTokens_tokens`). -/
namespace Formulary

variable {literal : String → Except ParseError Template} {span : List Token} {e : Expr}

/-! ### Outside brackets -/

/-- A token of a sort stands in the span, outside all brackets. -/
def HasOutside (p : Token → Prop) (span : List Token) : Prop :=
  ∃ left t right, span = left ++ t :: right ∧ depthAfter 0 left = 0 ∧ p t

theorem hasOutside_iff {p : Token → Prop} :
    HasOutside p span ↔ ∃ i : Fin span.length, depthAfter 0 (span.take i) = 0 ∧ p span[i] := by
  constructor
  · rintro ⟨left, t, right, rfl, hleft, ht⟩
    exact ⟨⟨left.length, by simp⟩, by simpa using hleft, by simpa using ht⟩
  · rintro ⟨i, hi, hp⟩
    exact ⟨span.take i, span[i], span.drop (i + 1), by simp, hi, hp⟩

instance (p : Token → Prop) [DecidablePred p] (span : List Token) : Decidable (HasOutside p span) :=
  decidable_of_iff _ hasOutside_iff.symm

def Token.IsWhere (t : Token) : Prop := t.isOperator = true ∧ t.text = "where"

instance : DecidablePred Token.IsWhere := fun _ => inferInstanceAs (Decidable (_ ∧ _))

def Token.IsNot (t : Token) : Prop := t.isOperator = true ∧ t.text = "not"

instance : DecidablePred Token.IsNot := fun _ => inferInstanceAs (Decidable (_ ∧ _))

theorem splitCommas_of_no_comma {depth : Nat}
    (h : ∀ left t right, span = left ++ t :: right → depthAfter depth left = 0 → t.kind ≠ .comma) :
    splitCommas depth span = [span] := by
  induction span generalizing depth with
  | nil => rfl
  | cons t rest ih =>
    have hrest {next : Nat} (hd : ∀ left, depthAfter depth (t :: left) = depthAfter next left) :
        splitCommas next rest = [rest] :=
      ih fun left t' right heq hleft =>
        h (t :: left) t' right (by rw [heq, List.cons_append]) (by rw [hd, hleft])
    by_cases ho : t.opens = true
    · rw [splitCommas_opens _ ho, hrest fun _ => depthAfter_opens _ ho]
      rfl
    by_cases hc : t.closes = true
    · rw [splitCommas_closes _ hc, hrest fun _ => depthAfter_closes _ hc]
      rfl
    have hp : t.IsPlain := ⟨by simpa using ho, by simpa using hc⟩
    have hcomma : depth = 0 → t.kind ≠ .comma := fun hd => h [] t rest rfl hd
    rw [splitCommas_plain hp hcomma, hrest fun _ => depthAfter_plain _ hp]
    rfl

theorem splitCommas_of_not_hasOutside (h : ¬ HasOutside (·.kind = .comma) span) :
    splitCommas 0 span = [span] :=
  splitCommas_of_no_comma fun left t right heq hd hk => h ⟨left, t, right, heq, hd, hk⟩

/-! ### Ends of spans -/

/-- What stands behind the span has an operand before it. -/
def EndsOperand (span : List Token) : Prop :=
  ∃ t, span.getLast? = some t ∧ t.endsOperand = true

theorem EndsOperand.append {a b : List Token} (h : EndsOperand b) : EndsOperand (a ++ b) := by
  obtain ⟨t, ht, hends⟩ := h
  exact ⟨t, by rw [List.getLast?_append, ht, Option.some_or], hends⟩

theorem EndsOperand.cons {t : Token} (h : EndsOperand span) : EndsOperand (t :: span) :=
  h.append (a := [t])

theorem EndsOperand.ne_nil (h : EndsOperand span) : span ≠ [] := by
  obtain ⟨t, ht, -⟩ := h
  rintro rfl
  cases ht

theorem endsOperand_singleton {t : Token} (hop : t.isOperator = false) (hp : t.IsPlain)
    (hk : t.kind ≠ .comma) : EndsOperand [t] :=
  ⟨t, rfl, by simp [Token.endsOperand, hop, hp.1, hk]⟩

theorem endsOperand_enclosed {opening closing : Token} {inner : List Token}
    (hc : closing.closes = true) : EndsOperand (opening :: (inner ++ [closing])) :=
  EndsOperand.cons (EndsOperand.append ⟨closing, rfl, Token.endsOperand_of_closes hc⟩)

/-- Expressions and bindings end as operands do. -/
theorem Derives.endsOperand {phrase : Phrase} (h : Derives literal span phrase)
    (hitems : ∀ es, phrase ≠ .items es) : EndsOperand span := by
  induction h with
  | name hk hop =>
    have hp := Token.isPlain_of_kind (.inl hk)
    exact endsOperand_singleton hop hp.1 hp.2
  | integer hk =>
    have hp := Token.isPlain_of_kind (.inr (.inl hk))
    exact endsOperand_singleton (by simp [Token.isOperator, hk]) hp.1 hp.2
  | text hk =>
    have hp := Token.isPlain_of_kind (.inr (.inr hk))
    exact endsOperand_singleton (by simp [Token.isOperator, hk]) hp.1 hp.2
  | unary _ _ _ ih => exact (ih (by simp)).cons
  | binary _ _ _ _ _ ih | member _ _ _ _ _ ih | clauses _ _ _ _ _ ih =>
    exact (ih (by simp)).cons.append
  | group _ hc | list _ hc => exact endsOperand_enclosed (by simp [Token.closes, hc])
  | call _ _ _ hc => exact (endsOperand_enclosed (by simp [Token.closes, hc])).cons
  | noItem | lastItem | moreItems => exact absurd rfl (hitems _)
  | lastBinding _ _ _ _ _ ih => exact (ih (by simp)).cons.cons
  | moreBindings _ _ _ _ _ _ _ _ _ _ ih => exact (ih (by simp)).cons.append.cons.cons

/-! ### Strengths -/

theorem Token.strength_cases (t : Token) :
    t.text = "not" ∧ t.strength = 1 ∨ t.text = "where" ∧ t.strength = 2 ∨ 3 ≤ t.strength := by
  unfold strength precedence?
  split
  case h_1 h => exact .inl ⟨h, rfl⟩
  case h_2 h => exact .inr (.inl ⟨h, rfl⟩)
  all_goals exact .inr (.inr (by decide))

theorem Token.IsWhere.strength_eq {t : Token} (h : t.IsWhere) : t.strength = 2 := by
  rw [strength, h.2]
  rfl

/-- A span is cut at one of its loosest operators. -/
theorem splitPoint_strength_le {cut : Nat × Token} (h : splitPoint span = some cut) :
    ∀ c ∈ candidates none 0 0 span, cut.2.strength ≤ c.2.strength := by
  unfold splitPoint at h
  split at h
  · cases h
  · next first others heq =>
    obtain ⟨before, behind, hall, hbefore, hbehind⟩ := foldl_looser_spec first others
    rw [Option.some.inj h] at hall hbefore hbehind
    rw [heq, hall]
    intro c hc
    rcases List.mem_append.1 hc with hc | hc
    · rcases hbefore c hc with h | h <;> omega
    · rcases List.mem_cons.1 hc with rfl | hc
      · exact Nat.le_refl _
      · rcases hbehind c hc with h | h <;> omega

/-- Of the loosest operators the last one is taken, in a band that groups to the left. -/
theorem splitPoint_of_candidates {before behind : List (Nat × Token)} {cut : Nat × Token}
    (h : candidates none 0 0 span = before ++ cut :: behind)
    (hbefore : ∀ c ∈ before, cut.2.strength ≤ c.2.strength)
    (hgroups : groupsRight cut.2.text = false)
    (hbehind : ∀ c ∈ behind, cut.2.strength < c.2.strength) : splitPoint span = some cut := by
  rw [splitPoint, h]
  cases before with
  | nil => exact congrArg some (foldl_looser_eq hbehind)
  | cons first others =>
    have hle := hbefore _ (foldl_looser_mem first others)
    show some ((others ++ cut :: behind).foldl looser first) = some cut
    rw [List.foldl_append, List.foldl_cons]
    generalize others.foldl looser first = loosest at hle
    have hcut : looser loosest cut = cut := by
      unfold looser
      split
      · rfl
      · rw [if_pos (by simp [hgroups]; omega)]
    rw [hcut, foldl_looser_eq hbehind]

/-- Which operators a span has does not depend on the place of the span, nor on what stands
before it if no operand ends there. -/
theorem candidates_tokens {before before' : Option Token} (depth start start' : Nat)
    (h : before.any Token.endsOperand = before'.any Token.endsOperand) :
    (candidates before depth start span).map Prod.snd =
      (candidates before' depth start' span).map Prod.snd := by
  induction span generalizing before before' depth start start' with
  | nil => rfl
  | cons t rest ih =>
    have ih (depth : Nat) := ih depth (start + 1) (start' + 1) (rfl : (some t).any _ = _)
    rw [candidates, candidates, h]
    split
    · exact ih _
    · split
      · exact ih _
      · split
        · exact congrArg (t :: ·) (ih _)
        · exact ih _

/-- The operators of the span that have an operand before them bind at least that tightly. -/
def Binds (strength : Nat) (span : List Token) : Prop :=
  ∀ c ∈ candidates none 0 0 span, strength ≤ c.2.strength

theorem Binds.candidates {strength : Nat} (h : Binds strength span) {before : Option Token}
    (hb : before.any Token.endsOperand = false) (start : Nat) :
    ∀ c ∈ candidates before 0 start span, strength ≤ c.2.strength := by
  intro c hc
  have hmem := List.mem_map_of_mem (f := Prod.snd) hc
  have hnone : before.any Token.endsOperand = (none : Option Token).any Token.endsOperand := hb
  rw [candidates_tokens 0 start 0 hnone] at hmem
  obtain ⟨c', hc', heq⟩ := List.mem_map.1 hmem
  exact heq ▸ h c' hc'

/-- A `not` between operands is refused. -/
theorem binds_of_parseSpan (h : parseSpan literal span = .ok e) : Binds 2 span := by
  intro c hc
  by_contra hlt
  obtain ⟨cut, hsplit⟩ : ∃ cut, splitPoint span = some cut := by
    unfold splitPoint
    split
    · next hnil =>
      rw [hnil] at hc
      cases hc
    · exact ⟨_, rfl⟩
  have hcut := splitPoint_strength_le hsplit c hc
  have hnot : cut.2.text = "not" ∧ cut.2.strength = 1 := by
    rcases cut.2.strength_cases with hnot | ⟨-, htwo⟩ | hthree
    · exact hnot
    · omega
    · omega
  have hfirst : ∀ first ∈ span.head?, first.isOperator = true → cut.2.strength ≤ first.strength := by
    intro first _ _
    rcases first.strength_cases with ⟨-, h⟩ | ⟨-, h⟩ | h <;> omega
  have hshape := Chain.shape_of_splitPoint hsplit hfirst
  rw [parseSpan_not_binary hshape (by simp [hnot.1]) (by simp [hnot.1])
    (by rw [hnot.1]; decide)] at h
  cases h

/-! ### Parts of a chain -/

/-- A span that is a formula by itself and has no `where` outside brackets. -/
structure Part (literal : String → Except ParseError Template) where
  span : List Token
  tree : Expr
  parses : parseTokens literal span = .ok tree
  noWhere : ¬ HasOutside Token.IsWhere span

namespace Part

variable (p : Part literal)

theorem nested : Nested p.span := (parseTokens_eq_ok_iff.1 p.parses).1

theorem parseSpan_span : parseSpan literal p.span = .ok p.tree :=
  (parseTokens_eq_ok_iff.1 p.parses).2

theorem endsOperand : EndsOperand p.span :=
  (derives_of_parseTokens p.parses).2.endsOperand (by simp)

/-- Its operators bind tighter than a `where`. -/
theorem binds : Binds 3 p.span := by
  intro c hc
  rcases c.2.strength_cases with ⟨-, hnot⟩ | ⟨hwhere, -⟩ | h
  · have hle := binds_of_parseSpan p.parseSpan_span c hc
    omega
  · obtain ⟨left, right, heq, -, hop, hleft⟩ := standsAt_of_candidates hc
    exact absurd ⟨left, c.2, right, heq, hleft, hop, hwhere⟩ p.noWhere
  · exact h

end Part

/-- The tokens of a binding: a name, an equality sign and a part without commas. -/
structure NamedPart (literal : String → Except ParseError Template) extends Part literal where
  name : Token
  equal : Token
  isWord : name.kind = .word
  isName : name.isOperator = false
  isOperator : equal.kind = .operator
  spells : equal.text = "="
  noComma : ¬ HasOutside (·.kind = .comma) span

namespace NamedPart

def tokens (b : NamedPart literal) : List Token := b.name :: b.equal :: b.span

variable (b : NamedPart literal)

theorem ne_nil : b.tokens ≠ [] := List.cons_ne_nil _ _

theorem nested : Nested b.tokens :=
  nested_binding b.isWord b.isOperator b.toPart.nested

theorem splitCommas_eq : splitCommas 0 b.tokens = [b.tokens] :=
  splitCommas_binding b.isWord b.isOperator (splitCommas_of_not_hasOutside b.noComma)

theorem readBinding_eq : readBinding b.tokens = .ok (b.name.text, b.span) :=
  readBinding_binding b.isWord b.isName b.isOperator b.spells b.toPart.endsOperand.ne_nil

/-- Its operators bind tighter than a `where`, the equality sign too. -/
theorem three_le_strength (before : Option Token) (start : Nat) :
    ∀ c ∈ candidates before 0 start b.tokens, 3 ≤ c.2.strength := by
  have hequal : 3 ≤ b.equal.strength := by
    rw [Token.strength, b.spells]
    decide
  have hbefore : (some b.equal).any Token.endsOperand = false :=
    Token.not_endsOperand_of_isOperator (by simp [Token.isOperator, b.isOperator])
  rw [tokens, candidates_binding b.isWord b.isName b.isOperator]
  exact List.forall_mem_cons.2 ⟨hequal, b.toPart.binds.candidates hbefore _⟩

end NamedPart

/-- The bindings of one `where`, with commas between them. -/
structure BindingList (literal : String → Except ParseError Template) where
  first : NamedPart literal
  others : List (Token × NamedPart literal)
  commas : ∀ p ∈ others, p.1.kind = .comma
  distinct : ((first :: others.map Prod.snd).map (·.name.text)).Nodup

namespace BindingList

/-- The tokens of a binding and of others behind commas. -/
def joined (first : NamedPart literal) (others : List (Token × NamedPart literal)) : List Token :=
  first.tokens ++ others.flatMap fun p => p.1 :: p.2.tokens

def tokens (b : BindingList literal) : List Token := joined b.first b.others

/-- The names and the trees. -/
def bindings (b : BindingList literal) : List (String × Expr) :=
  (b.first :: b.others.map Prod.snd).map fun p => (p.name.text, p.tree)

variable {first : NamedPart literal} {others : List (Token × NamedPart literal)}

theorem joined_cons (comma : Token) (next : NamedPart literal) :
    joined first ((comma, next) :: others) = first.tokens ++ comma :: joined next others := by
  simp [joined]

theorem joined_ne_nil : joined first others ≠ [] :=
  List.append_ne_nil_of_left_ne_nil first.ne_nil _

theorem nested_joined (hcommas : ∀ p ∈ others, p.1.kind = .comma) :
    Nested (joined first others) := by
  induction others generalizing first with
  | nil => simpa [joined] using first.nested
  | cons p others ih =>
    obtain ⟨hcomma, hcommas⟩ := List.forall_mem_cons.1 hcommas
    rw [joined_cons]
    exact first.nested.append (.cons (isPlain_comma hcomma) (ih hcommas))

theorem three_le_strength_joined (hcommas : ∀ p ∈ others, p.1.kind = .comma)
    (before : Option Token) (start : Nat) :
    ∀ c ∈ candidates before 0 start (joined first others), 3 ≤ c.2.strength := by
  induction others generalizing first before start with
  | nil => simpa [joined] using first.three_le_strength before start
  | cons p others ih =>
    obtain ⟨hcomma, hcommas⟩ := List.forall_mem_cons.1 hcommas
    have hp := isPlain_comma hcomma
    have hop : p.1.isOperator = false := by simp [Token.isOperator, hcomma]
    have hdepth : depthAfter 0 first.tokens = 0 := depthAfter_eq first.nested
    intro c hc
    rw [joined_cons, candidates_append, hdepth, List.mem_append, candidates,
      if_neg (by simp [hp.1]), if_neg (by simp [hp.2]), if_neg (by simp [hop])] at hc
    rcases hc with hc | hc
    · exact first.three_le_strength before start c hc
    · exact ih hcommas _ _ c hc

theorem parseBindings_joined {bound : List String} (hcommas : ∀ p ∈ others, p.1.kind = .comma)
    (hdistinct : ((first :: others.map Prod.snd).map (·.name.text)).Nodup)
    (hbound : ∀ p ∈ first :: others.map Prod.snd, p.name.text ∉ bound) :
    parseBindings literal bound (parts (joined first others)) =
      .ok ((first :: others.map Prod.snd).map fun p => (p.name.text, p.tree)) := by
  obtain ⟨hfirst, hothers⟩ := List.forall_mem_cons.1 hbound
  induction others generalizing first bound with
  | nil =>
    have hparts : parts (joined first []) = [first.tokens] := by
      simpa [joined] using parts_single first.ne_nil first.splitCommas_eq
    rw [hparts, parseBindings_cons_of_not_mem first.readBinding_eq hfirst,
      first.toPart.parseSpan_span, parseBindings]
    rfl
  | cons p others ih =>
    obtain ⟨hcomma, hcommas⟩ := List.forall_mem_cons.1 hcommas
    rw [List.map_cons, List.nodup_cons] at hdistinct
    obtain ⟨hnew, hdistinct⟩ := hdistinct
    have hbound' : ∀ q ∈ p.2 :: others.map Prod.snd, q.name.text ∉ first.name.text :: bound := by
      intro q hq hmem
      rcases List.mem_cons.1 hmem with heq | hmem
      · exact hnew (heq ▸ List.mem_map_of_mem hq)
      · exact hothers q hq hmem
    obtain ⟨hnext, hrest⟩ := List.forall_mem_cons.1 hbound'
    have hbindings := ih hcommas hdistinct hbound' hnext hrest
    rw [joined_cons, parts_comma first.splitCommas_eq first.nested hcomma joined_ne_nil,
      parseBindings_cons_of_not_mem first.readBinding_eq hfirst, first.toPart.parseSpan_span,
      hbindings]
    rfl

end BindingList

/-! ### One clause more -/

/-- A formula that a `where` behind it takes whole. -/
structure Bearing (literal : String → Except ParseError Template) (span : List Token) (e : Expr) :
    Prop where
  parses : parseTokens literal span = .ok e
  first : ∀ first ∈ span.head?, first.isOperator = true → 2 ≤ first.strength

/-- Behind a formula with a `where` of its own the next one takes that, too. -/
theorem Bearing.where_clause (h : Bearing literal span e) {op : Token} (hop : op.IsWhere)
    (b : BindingList literal) :
    Bearing literal (span ++ op :: b.tokens) (.clauses e b.bindings) := by
  obtain ⟨hnested, hparse⟩ := parseTokens_eq_ok_iff.1 h.parses
  obtain ⟨last, hlast, hends⟩ := (derives_of_parseSpan hnested hparse).endsOperand (by simp)
  have hp := Token.isPlain_of_isOperator hop.1
  have hdepth : depthAfter 0 span = 0 := depthAfter_eq hnested
  have hfirst : ∀ first ∈ (span ++ op :: b.tokens).head?,
      first.isOperator = true → 2 ≤ first.strength := by
    cases span with
    | nil => cases hlast
    | cons first rest => exact h.first
  have hcandidates : candidates none 0 0 (span ++ op :: b.tokens) =
      candidates none 0 0 span ++ (span.length, op) ::
        candidates (some op) 0 (span.length + 1) b.tokens := by
    rw [candidates_append, hlast, hdepth, Option.some_or, candidates,
      if_neg (by simp [hp.1]), if_neg (by simp [hp.2]), if_pos (by simp [hop.1, hends]),
      Nat.zero_add]
  have hsplit : splitPoint (span ++ op :: b.tokens) = some (span.length, op) := by
    refine splitPoint_of_candidates hcandidates (fun c hc => ?_) (by simp [hop.2, groupsRight])
      fun c hc => ?_
    · exact hop.strength_eq ▸ binds_of_parseSpan hparse c hc
    · exact hop.strength_eq ▸ BindingList.three_le_strength_joined b.commas _ _ c hc
  have hshape : Shape.of (span ++ op :: b.tokens) = .binary span op b.tokens := by
    rw [Chain.shape_of_splitPoint hsplit (by rwa [hop.strength_eq]), List.take_left,
      ← List.drop_drop, List.drop_left]
    rfl
  have hbindings : parseBindings literal [] (parts b.tokens) = .ok b.bindings :=
    BindingList.parseBindings_joined b.commas b.distinct fun _ _ => List.not_mem_nil
  refine ⟨parseTokens_eq_ok_iff.2 ⟨?_, ?_⟩, hfirst⟩
  · exact hnested.append (.cons hp (BindingList.nested_joined b.commas))
  · rw [parseSpan_clauses hshape hop.2 BindingList.joined_ne_nil, hparse, hbindings]
    rfl

/-- A `not` before a formula takes it whole. -/
theorem parseTokens_not {p : PrefixToken} (hp : p.op = .not)
    (h : parseTokens literal span = .ok e) :
    parseTokens literal (p.token :: span) = .ok (.unary .not e) := by
  obtain ⟨hnested, hparse⟩ := parseTokens_eq_ok_iff.1 h
  have hplain := Token.isPlain_of_isOperator p.isOperator
  have hstrength : p.token.strength = 1 := by
    rw [p.strength_eq, hp]
    rfl
  have hshape : Shape.of (p.token :: span) = .unary p.token span := by
    refine Chain.shape_of_lead fun cut hcut => ?_
    have hmem := splitPoint_mem hcut
    have hbefore : (some p.token).any Token.endsOperand = false :=
      Token.not_endsOperand_of_isOperator p.isOperator
    rw [candidates, if_neg (by simp [hplain.1]), if_neg (by simp [hplain.2]),
      if_neg (by simp)] at hmem
    rw [hstrength]
    exact (binds_of_parseSpan hparse).candidates hbefore _ cut hmem
  refine parseTokens_eq_ok_iff.2 ⟨.cons hplain hnested, ?_⟩
  rw [parseSpan_unary (u := .not) hshape (by rw [p.spells, hp]; rfl), hparse]
  rfl

theorem parseTokens_nots {nots : List PrefixToken} (hnots : ∀ p ∈ nots, p.op = .not)
    (h : parseTokens literal span = .ok e) :
    parseTokens literal (nots.map PrefixToken.token ++ span) =
      .ok (nots.foldr (fun _ e => .unary .not e) e) := by
  induction nots with
  | nil => exact h
  | cons p nots ih =>
    obtain ⟨hp, hnots⟩ := List.forall_mem_cons.1 hnots
    exact parseTokens_not hp (ih hnots)

/-! ### Chains -/

/-- A formula with clauses behind it and `not`s before it. -/
structure ClauseChain (literal : String → Except ParseError Template) where
  nots : List PrefixToken
  isNot : ∀ p ∈ nots, p.op = .not
  body : Part literal
  /-- The body does not begin with a `not`. -/
  first : ∀ first ∈ body.span.head?, ¬ first.IsNot
  clauses : List (Token × BindingList literal)
  isWhere : ∀ c ∈ clauses, c.1.IsWhere

namespace ClauseChain

def tokens (c : ClauseChain literal) : List Token :=
  c.nots.map PrefixToken.token ++ (c.body.span ++ c.clauses.flatMap fun d => d.1 :: d.2.tokens)

/-- The names and the trees of the clauses. -/
def bindings (c : ClauseChain literal) : List (List (String × Expr)) :=
  c.clauses.map fun d => d.2.bindings

/-- The body with its clauses, the first of them innermost. -/
def nest (body : Expr) (bindings : List (List (String × Expr))) : Expr :=
  bindings.foldl .clauses body

/-- As many `not`s around it. -/
def tree (c : ClauseChain literal) : Expr :=
  c.nots.foldr (fun _ e => .unary .not e) (nest c.body.tree c.bindings)

theorem Bearing.where_clauses (h : Bearing literal span e)
    {clauses : List (Token × BindingList literal)} (hwhere : ∀ c ∈ clauses, c.1.IsWhere) :
    Bearing literal (span ++ clauses.flatMap fun d => d.1 :: d.2.tokens)
      (nest e (clauses.map fun d => d.2.bindings)) := by
  induction clauses generalizing span e with
  | nil => simpa [nest] using h
  | cons d clauses ih =>
    obtain ⟨hd, hwhere⟩ := List.forall_mem_cons.1 hwhere
    have hrest := ih (h.where_clause hd d.2) hwhere
    rw [List.append_assoc] at hrest
    exact hrest

/-- **Clauses nest to the left**, and `not`s stay outside. -/
theorem parseTokens_tokens (c : ClauseChain literal) :
    parseTokens literal c.tokens = .ok c.tree := by
  have hbody : Bearing literal c.body.span c.body.tree := by
    refine ⟨c.body.parses, fun first hfirst hop => ?_⟩
    rcases first.strength_cases with ⟨hnot, -⟩ | ⟨-, h⟩ | h
    · exact absurd ⟨hop, hnot⟩ (c.first first hfirst)
    · omega
    · omega
  exact parseTokens_nots c.isNot (Bearing.where_clauses hbody c.isWhere).parses

end ClauseChain

end Formulary
