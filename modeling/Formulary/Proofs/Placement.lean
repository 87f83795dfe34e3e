import Formulary.Proofs.Grammar

/-! Tokens without their places.

Where a token stands in its source plays no part in reading it: every scanner of a span, and
so the parser, finds the same with all places forgotten (`parse_unplaced`). Only the
report of an unmatched bracket tells a place (`firstUnmatched_unplaced`). Nor do the text
literals matter that are not among the tokens (`parseTokens_congr`). -/
namespace Formulary

/-! ### Tokens and forms -/

namespace Token

/-- The token with its place forgotten. -/
def unplaced (t : Token) : Token := { t with offset := 0 }

variable (t : Token)

@[simp] theorem unplaced_kind : t.unplaced.kind = t.kind := by cases t; rfl

@[simp] theorem unplaced_text : t.unplaced.text = t.text := by cases t; rfl

@[simp] theorem unplaced_opens : t.unplaced.opens = t.opens := by cases t; rfl

@[simp] theorem unplaced_closes : t.unplaced.closes = t.closes := by cases t; rfl

@[simp] theorem unplaced_isOperator : t.unplaced.isOperator = t.isOperator := by cases t; rfl

@[simp] theorem unplaced_strength : t.unplaced.strength = t.strength := by cases t; rfl

end Token

/-- The form with the places of its tokens forgotten. -/
def Shape.unplaced : Shape → Shape
  | .empty => .empty
  | .unary op operand => .unary op.unplaced (operand.map Token.unplaced)
  | .binary left op right =>
    .binary (left.map Token.unplaced) op.unplaced (right.map Token.unplaced)
  | .atom t => .atom t.unplaced
  | .group inner => .group (inner.map Token.unplaced)
  | .list inner => .list (inner.map Token.unplaced)
  | .call name arguments => .call name.unplaced (arguments.map Token.unplaced)
  | .other => .other

/-! ### Scanners -/

variable {literal : String → Except ParseError Template}

theorem firstUnmatched_unplaced (openBrackets span : List Token) :
    firstUnmatched (openBrackets.map Token.unplaced) (span.map Token.unplaced) =
      (firstUnmatched openBrackets span).map Token.unplaced := by
  fun_induction firstUnmatched openBrackets span with
  | case1 openBrackets => simp [firstUnmatched]
  | case2 openBrackets t rest ho ih => simpa [firstUnmatched, ho] using ih
  | case3 t rest ho hc b outer hb ih => simpa [firstUnmatched, ho, hc, hb] using ih
  | case4 t rest ho hc b outer hb => simp [firstUnmatched, ho, hc, hb]
  | case5 t rest ho hc => simp [firstUnmatched, ho, hc]
  | case6 openBrackets t rest ho hc ih => simpa [firstUnmatched, ho, hc] using ih

theorem closesAtEnd_unplaced (depth : Nat) (span : List Token) :
    closesAtEnd depth (span.map Token.unplaced) = closesAtEnd depth span := by
  induction span generalizing depth with
  | nil => rfl
  | cons t rest ih => simp [closesAtEnd, ih]

theorem splitCommas_unplaced (depth : Nat) (span : List Token) :
    splitCommas depth (span.map Token.unplaced) =
      (splitCommas depth span).map (List.map Token.unplaced) := by
  have hcons (t : Token) (parts : List (List Token)) :
      splitCommas.consFirst t.unplaced (parts.map (List.map Token.unplaced)) =
        (splitCommas.consFirst t parts).map (List.map Token.unplaced) := by
    cases parts <;> rfl
  fun_induction splitCommas depth span with
  | case1 => rfl
  | case2 depth t rest ho ih => simp [splitCommas, ho, ih, hcons]
  | case3 depth t rest ho hc ih => simp [splitCommas, ho, hc, ih, hcons]
  | case4 depth t rest ho hc hcomma ih => simp_all [splitCommas]
  | case5 depth t rest ho hc hcomma ih =>
    rw [List.map_cons, splitCommas]
    simp only [Token.unplaced_opens, Token.unplaced_closes, Token.unplaced_kind]
    rw [if_neg ho, if_neg hc, if_neg hcomma, ih, hcons]

theorem parts_unplaced (span : List Token) :
    parts (span.map Token.unplaced) = (parts span).map (List.map Token.unplaced) := by
  unfold parts
  rw [List.isEmpty_map]
  split
  · rfl
  · exact splitCommas_unplaced 0 span

theorem joinTexts_unplaced (span : List Token) :
    joinTexts (span.map Token.unplaced) = joinTexts span := by
  rw [joinTexts, List.map_map]
  rfl

theorem candidates_unplaced (before : Option Token) (depth start : Nat) (span : List Token) :
    candidates (before.map Token.unplaced) depth start (span.map Token.unplaced) =
      (candidates before depth start span).map (Prod.map id Token.unplaced) := by
  have hbefore : (before.map Token.unplaced).any Token.endsOperand = before.any Token.endsOperand := by
    cases before <;> rfl
  induction span generalizing before depth start with
  | nil => rfl
  | cons t rest ih =>
    have ih' (depth start : Nat) := ih (some t) depth start rfl
    rw [Option.map_some] at ih'
    simp only [List.map_cons, candidates, Token.unplaced_opens, Token.unplaced_closes,
      Token.unplaced_isOperator, hbefore, ih']
    split
    · rfl
    · split
      · rfl
      · split <;> rfl

theorem looser_unplaced (a b : Nat × Token) :
    looser (a.map id Token.unplaced) (b.map id Token.unplaced) =
      (looser a b).map id Token.unplaced := by
  simp only [looser, Prod.map_snd, Token.unplaced_strength, Token.unplaced_text]
  split
  · rfl
  · split <;> rfl

theorem splitPoint_unplaced (span : List Token) :
    splitPoint (span.map Token.unplaced) =
      (splitPoint span).map (Prod.map id Token.unplaced) := by
  have hcandidates := candidates_unplaced none 0 0 span
  rw [Option.map_none] at hcandidates
  rw [splitPoint, hcandidates, splitPoint]
  cases candidates none 0 0 span with
  | nil => rfl
  | cons first others =>
    simp only [List.map_cons, Option.map_some, List.foldl_map]
    rw [List.foldl_hom (Prod.map id Token.unplaced) fun a b => looser_unplaced a b]

/-! ### Spans -/

theorem Shape.primary_unplaced (first : Token) (rest : List Token) :
    Shape.primary first.unplaced (rest.map Token.unplaced) = (Shape.primary first rest).unplaced := by
  have hend := closesAtEnd_unplaced 0 (first :: rest)
  rw [List.map_cons] at hend
  unfold primary
  simp only [List.isEmpty_map, Token.unplaced_opens, Token.unplaced_kind, hend]
  split
  · rfl
  · split
    · split
      · rw [← List.map_dropLast]
        rfl
      · rw [← List.map_dropLast]
        rfl
    · cases rest with
      | nil => rfl
      | cons bracket inner =>
        have hcall := closesAtEnd_unplaced 0 (bracket :: inner)
        rw [List.map_cons] at hcall
        simp only [List.map_cons, Token.unplaced_kind, hcall]
        split
        · rw [← List.map_dropLast]
          rfl
        · rfl

theorem Shape.of_unplaced (span : List Token) :
    Shape.of (span.map Token.unplaced) = (Shape.of span).unplaced := by
  cases span with
  | nil => rfl
  | cons first rest =>
    have hsplit := splitPoint_unplaced (first :: rest)
    rw [List.map_cons] at hsplit
    rw [List.map_cons, Shape.of, hsplit, Shape.of]
    cases splitPoint (first :: rest) with
    | none =>
      simp only [Option.map_none, Token.unplaced_isOperator]
      split
      · rfl
      · exact primary_unplaced first rest
    | some c =>
      obtain ⟨position, op⟩ := c
      simp only [Option.map_some, Prod.map_apply, id_eq, Token.unplaced_isOperator,
        Token.unplaced_strength]
      split
      · rfl
      · rw [← List.map_cons, ← List.map_take, ← List.map_drop]
        rfl

theorem parseAtom_unplaced (t : Token) : parseAtom literal t.unplaced = parseAtom literal t :=
  rfl

theorem readBinding_unplaced (clause : List Token) :
    readBinding (clause.map Token.unplaced) =
      Prod.map id (List.map Token.unplaced) <$> readBinding clause := by
  match clause with
  | [] => rfl
  | [t] => rfl
  | name :: equal :: value =>
    have hjoin := joinTexts_unplaced (name :: equal :: value)
    simp only [List.map_cons] at hjoin
    simp only [List.map_cons, readBinding, Token.unplaced_kind, Token.unplaced_text,
      Token.unplaced_isOperator, List.isEmpty_map, hjoin]
    split
    · split
      · rfl
      · split <;> rfl
    · rfl

/-- Two ways to compile text literals agree on those among the tokens. -/
def AgreeOn (literal literal' : String → Except ParseError Template) (tokens : List Token) : Prop :=
  ∀ t ∈ tokens, t.kind = .text → literal' (unquote t.text) = literal (unquote t.text)

namespace AgreeOn

variable {literal' : String → Except ParseError Template} {span : List Token}

theorem refl : AgreeOn literal literal span := fun _ _ _ => rfl

theorem subset {inner : List Token} (h : AgreeOn literal literal' span) (hsub : inner ⊆ span) :
    AgreeOn literal literal' inner := fun t ht => h t (hsub ht)

theorem parts (h : AgreeOn literal literal' span) :
    ∀ part ∈ parts span, AgreeOn literal literal' part :=
  fun part hpart => h.subset (parts_subset span part hpart)

theorem parseAtom_eq {t : Token} (h : AgreeOn literal literal' [t]) :
    parseAtom literal' t = parseAtom literal t := by
  unfold parseAtom
  split
  · rfl
  · rfl
  · next hkind => rw [h t (List.mem_singleton_self t) hkind]
  · rfl

end AgreeOn

/-- **Reading needs no places**, and no literals but those that are there. -/
theorem parse_unplaced {literal' : String → Except ParseError Template} :
    (∀ span, AgreeOn literal literal' span →
      parseSpan literal' (span.map Token.unplaced) = parseSpan literal span) ∧
    (∀ spans, (∀ part ∈ spans, AgreeOn literal literal' part) →
      parseParts literal' (spans.map (List.map Token.unplaced)) = parseParts literal spans) ∧
    (∀ bound clauses, (∀ part ∈ clauses, AgreeOn literal literal' part) →
      parseBindings literal' bound (clauses.map (List.map Token.unplaced)) =
        parseBindings literal bound clauses) := by
  have shape {span : List Token} {form : Shape} (hs : Shape.of span = form) :
      Shape.of (span.map Token.unplaced) = form.unplaced := hs ▸ Shape.of_unplaced span
  have read {clause : List Token} {r : Except ParseError (String × List Token)}
      (h : readBinding clause = r) :
      readBinding (clause.map Token.unplaced) = Prod.map id (List.map Token.unplaced) <$> r :=
    h ▸ readBinding_unplaced clause
  have inside {span : List Token} {form : Shape} (hs : Shape.of span = form)
      (h : AgreeOn literal literal' span) : AgreeOn literal literal' form.inner :=
    h.subset (hs ▸ Shape.inner_subset span)
  apply parseSpan.mutual_induct
  -- The forms that are refused.
  case case1 =>
    intro span hs _
    rw [parseSpan_empty hs, parseSpan_empty (shape hs)]
  case case2 =>
    intro span op operand hs hu _
    rw [parseSpan_not_unary hs hu, parseSpan_not_unary (shape hs) hu]
    rfl
  case case6 =>
    intro span left op right hs _ hdot hwhere hb _
    rw [parseSpan_not_binary hs hdot hwhere hb, parseSpan_not_binary (shape hs) hdot hwhere hb]
    rfl
  case case11 =>
    intro span name inner hs _ hf _
    rw [parseSpan_not_function hs hf, parseSpan_not_function (shape hs) hf]
    rfl
  case case13 =>
    intro span hs _
    rw [parseSpan_other hs, parseSpan_other (shape hs), joinTexts_unplaced]
  -- Spans with an operator to cut at.
  case case3 =>
    intro span op operand hs u hu _ ih h
    rw [parseSpan_unary hs hu, parseSpan_unary (shape hs) hu, ih (inside hs h)]
  case case4 =>
    intro span left op right hs _ hdot ihl ihr h
    have hl := (inside hs h).subset (List.subset_append_left left right)
    have hr := (inside hs h).subset (List.subset_append_right left right)
    rw [parseSpan_member hs hdot, parseSpan_member (shape hs) hdot, ihl hl, ihr hr]
  case case5 =>
    intro span left op right hs _ hdot hwhere ihl ihr h
    have hl := (inside hs h).subset (List.subset_append_left left right)
    have hr := (inside hs h).subset (List.subset_append_right left right)
    by_cases hright : right = []
    · subst hright
      rw [parseSpan_nothing_follows hs hwhere, parseSpan_nothing_follows (shape hs) hwhere, ihl hl]
    · have hright' : right.map Token.unplaced ≠ [] := by simpa using hright
      rw [parseSpan_clauses hs hwhere hright, parseSpan_clauses (shape hs) hwhere hright', ihl hl,
        parts_unplaced, ihr hr.parts]
  case case7 =>
    intro span left op right hs _ _ _ b hb ihl ihr h
    have hl := (inside hs h).subset (List.subset_append_left left right)
    have hr := (inside hs h).subset (List.subset_append_right left right)
    rw [parseSpan_binary hs hb, parseSpan_binary (shape hs) hb, ihl hl, ihr hr]
  -- Spans without one.
  case case8 =>
    intro span t hs h
    rw [parseSpan_atom hs, parseSpan_atom (shape hs), parseAtom_unplaced, (inside hs h).parseAtom_eq]
  case case9 =>
    intro span inner hs _ ih h
    rw [parseSpan_group hs, parseSpan_group (shape hs), ih (inside hs h)]
  case case10 =>
    intro span inner hs _ ih h
    rw [parseSpan_list hs, parseSpan_list (shape hs), parts_unplaced, ih (inside hs h).parts]
  case case12 =>
    intro span name inner hs _ hf ih h
    obtain ⟨f, hf⟩ := Option.ne_none_iff_exists'.1 (by simpa using hf)
    rw [parseSpan_call hs hf, parseSpan_call (shape hs) hf, parts_unplaced, ih (inside hs h).parts]
    rfl
  -- Parts between commas.
  case case14 =>
    intro _
    rw [List.map_nil, parseParts, parseParts]
  case case15 =>
    intro part spans ihe ihs h
    obtain ⟨hpart, hspans⟩ := List.forall_mem_cons.1 h
    rw [List.map_cons, parseParts, parseParts, ihe hpart, ihs hspans]
  case case16 =>
    intro bound _
    rw [List.map_nil, parseBindings, parseBindings]
  case case17 =>
    intro bound clause clauses err hread _
    rw [List.map_cons, parseBindings_cons_of_error hread,
      parseBindings_cons_of_error (read hread)]
  case case18 =>
    intro bound clause clauses name value hread _ hbound _
    have hread' : readBinding (clause.map Token.unplaced) = .ok (name, value.map Token.unplaced) :=
      read hread
    have hmem : name ∈ bound := by simpa using hbound
    rw [List.map_cons, parseBindings_cons_of_mem hread hmem, parseBindings_cons_of_mem hread' hmem]
  case case19 =>
    intro bound clause clauses name value hread _ hbound ihe ihs h
    obtain ⟨hclause, hclauses⟩ := List.forall_mem_cons.1 h
    have hread' : readBinding (clause.map Token.unplaced) = .ok (name, value.map Token.unplaced) :=
      read hread
    have hnew : name ∉ bound := by simpa using hbound
    rw [List.map_cons, parseBindings_cons_of_not_mem hread hnew,
      parseBindings_cons_of_not_mem hread' hnew, ihe (hclause.subset (readBinding_subset hread)),
      ihs hclauses]

theorem parseSpan_unplaced (span : List Token) :
    parseSpan literal (span.map Token.unplaced) = parseSpan literal span :=
  parse_unplaced.1 span .refl

/-! ### Token lists -/

/-- Only the text literals that are there need to be compiled alike. -/
theorem parseTokens_congr {literal' : String → Except ParseError Template} {tokens : List Token}
    (h : AgreeOn literal literal' tokens) : parseTokens literal' tokens = parseTokens literal tokens := by
  have hspan : parseSpan literal' tokens = parseSpan literal tokens := by
    rw [← parseSpan_unplaced tokens, parse_unplaced.1 tokens h]
  unfold parseTokens
  split
  · rfl
  · exact hspan

/-- Token lists that are alike but for places are read alike; only of an unmatched bracket
the place may be another. -/
theorem parseTokens_of_unplaced_eq {ts ts' : List Token}
    (h : ts.map Token.unplaced = ts'.map Token.unplaced) :
    parseTokens literal ts = parseTokens literal ts' ∨
      ∃ bracket position position', parseTokens literal ts = .error (.unbalanced bracket position) ∧
        parseTokens literal ts' = .error (.unbalanced bracket position') := by
  have hunmatched : (firstUnmatched [] ts).map Token.unplaced =
      (firstUnmatched [] ts').map Token.unplaced := by
    have hts := firstUnmatched_unplaced [] ts
    have hts' := firstUnmatched_unplaced [] ts'
    rw [← hts, ← hts', h]
  have hspan : parseSpan literal ts = parseSpan literal ts' := by
    rw [← parseSpan_unplaced ts, ← parseSpan_unplaced ts', h]
  unfold parseTokens
  cases hfirst : firstUnmatched [] ts with
  | none =>
    rw [hfirst, Option.map_none] at hunmatched
    rw [Option.map_eq_none_iff.1 hunmatched.symm]
    exact .inl hspan
  | some bracket =>
    rw [hfirst, Option.map_some] at hunmatched
    obtain ⟨bracket', hbracket', heq⟩ := Option.map_eq_some_iff.1 hunmatched.symm
    have htext : bracket'.text = bracket.text := by
      rw [← bracket'.unplaced_text, heq, bracket.unplaced_text]
    rw [hbracket']
    exact .inr ⟨bracket.text, bracket.offset, bracket'.offset, rfl, by rw [← htext]⟩

end Formulary
