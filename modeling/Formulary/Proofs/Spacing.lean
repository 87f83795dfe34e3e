import Formulary.Proofs.Placement
import Formulary.Proofs.Tiling

/-! White space between tokens.

The lexeme at the head of a text is found with white space behind it as it was found with
something else there (`Token.Lexed.scan_append`). So a text that spreads the tokens of
another one over any white space has the same tokens, and is read to the same end. -/
namespace Formulary

/-! ### Blanks -/

theorem Text.isDigit_of_isBlank {c : Char} (h : isBlank c = true) : isDigit c = false := by
  rw [← Bool.not_eq_true]
  intro hdigit
  have hscan := scan_digit hdigit []
  rw [scan, if_pos h] at hscan
  cases hscan

theorem startsWord_of_isBlank {c : Char} (h : Text.isBlank c = true) : startsWord c = false := by
  rw [← Bool.not_eq_true]
  intro hword
  obtain ⟨text, rest, hfound⟩ := Scan.exists_of_word [c]
  have hscan := scan_of_startsWord hword []
  rw [scan, if_pos h, hfound] at hscan
  cases hscan

theorem continuesWord_of_isBlank {c : Char} (h : Text.isBlank c = true) :
    continuesWord c = false := by
  rw [continuesWord, startsWord_of_isBlank h, Text.isDigit_of_isBlank h]
  rfl

/-- A lexeme that goes as far as it can alone does so before white space. -/
theorem Reaches.before_blank {kind : TokenKind} {text rest : List Char}
    (h : Reaches text [] kind) (hne : text ≠ []) (hfinish : kind ≠ .finish) (hblank : kind ≠ .blank)
    (hrest : ∀ c ∈ rest.head?, Text.isBlank c = true) : Reaches text rest kind := by
  cases kind with
  | finish => exact absurd rfl hfinish
  | blank => exact absurd rfl hblank
  | integer => exact fun c hc => Text.isDigit_of_isBlank (hrest c hc)
  | operator =>
    intro hequal
    cases hrest '=' hequal
  | word =>
    have hlone : LoneDice (text ++ rest) ↔ LoneDice (text ++ []) := by
      cases text with
      | nil => exact absurd rfl hne
      | cons c cs =>
        rw [List.cons_append, List.cons_append, loneDice_cons_iff, loneDice_cons_iff]
        cases cs with
        | cons x xs => rfl
        | nil =>
          have hhead : rest.head?.any startsWord = false := by
            cases rest with
            | nil => rfl
            | cons x xs => exact startsWord_of_isBlank (hrest x rfl)
          simp [hhead]
    rcases h with ⟨hdice, htext⟩ | ⟨hdice, -⟩
    · exact .inl ⟨hlone.2 hdice, htext⟩
    · exact .inr ⟨fun h => hdice (hlone.1 h), fun c hc => continuesWord_of_isBlank (hrest c hc)⟩
  | text | openParen | closeParen | openBracket | closeBracket | comma => trivial

/-- A token is found before white space. -/
theorem Token.Lexed.scan_append {t : Token} (h : t.Lexed) (hfinish : t.kind ≠ .finish)
    (hblank : t.kind ≠ .blank) {rest : List Char} (hrest : ∀ c ∈ rest.head?, Text.isBlank c = true) :
    scan (t.text.toList ++ rest) = .lexeme t.kind t.text.toList rest := by
  obtain ⟨hlexeme, hreaches⟩ := isLexeme_of_scan h
  exact scan_append_of_isLexeme hlexeme
    (hreaches.before_blank (hlexeme.ne_nil hfinish) hfinish hblank hrest)

/-! ### Tokens spread over a text -/

/-- The texts of tokens, each with what stands behind it. -/
def spread (pairs : List (Token × List Char)) : List Char :=
  pairs.flatMap fun p => p.1.text.toList ++ p.2

/-- Only white space stands between the tokens, and between any two of them there is some. -/
def SpreadOverBlanks (pairs : List (Token × List Char)) : Prop :=
  (∀ p ∈ pairs, ∀ c ∈ p.2, Text.isBlank c = true) ∧ ∀ p ∈ pairs.dropLast, p.2 ≠ []

theorem SpreadOverBlanks.of_cons {p : Token × List Char} {pairs : List (Token × List Char)}
    (h : SpreadOverBlanks (p :: pairs)) :
    SpreadOverBlanks pairs ∧ (∀ c ∈ p.2, Text.isBlank c = true) ∧
      ∀ c ∈ (p.2 ++ spread pairs).head?, Text.isBlank c = true := by
  obtain ⟨hblank, hne⟩ := h
  obtain ⟨hp, hpairs⟩ := List.forall_mem_cons.1 hblank
  cases pairs with
  | nil =>
    refine ⟨⟨hpairs, fun _ h => nomatch h⟩, hp, fun c hc => ?_⟩
    rw [spread, List.flatMap_nil, List.append_nil] at hc
    exact hp c (List.mem_of_head? hc)
  | cons p' pairs =>
    rw [List.dropLast_cons_of_ne_nil (List.cons_ne_nil _ _)] at hne
    obtain ⟨hgap, hne⟩ := List.forall_mem_cons.1 hne
    refine ⟨⟨hpairs, hne⟩, hp, fun c hc => ?_⟩
    obtain ⟨x, xs, hx⟩ := List.exists_cons_of_ne_nil hgap
    rw [hx] at hc hp
    exact hp c (List.mem_of_head? hc)

/-- What begins with a token does not begin with white space. -/
theorem not_blank_spread {pairs : List (Token × List Char)}
    (hpairs : ∀ p ∈ pairs, p.1.Lexed ∧ p.1.kind ≠ .finish ∧ p.1.kind ≠ .blank) :
    ∀ c ∈ (spread pairs).head?, Text.isBlank c = false := by
  cases pairs with
  | nil => exact fun _ h => nomatch h
  | cons p pairs =>
    obtain ⟨hlexed, hfinish, hblank⟩ := hpairs p List.mem_cons_self
    have hhead := not_blank_of_scan hlexed hblank
    obtain ⟨x, xs, hx⟩ := List.exists_cons_of_ne_nil (scan_ne_nil hlexed hfinish)
    rw [hx] at hhead
    rw [spread, List.flatMap_cons, hx]
    exact hhead

/-- A lexer finds the tokens again. -/
theorem Lexer.exists_passes_spread {pairs : List (Token × List Char)} {l : Lexer}
    (hpairs : ∀ p ∈ pairs, p.1.Lexed ∧ p.1.kind ≠ .finish ∧ p.1.kind ≠ .blank)
    (hblanks : SpreadOverBlanks pairs) (hl : l.rest = spread pairs) :
    ∃ ts q, l.Passes ts ⟨[], q⟩ ∧
      ts.map Token.unplaced = pairs.map fun p => p.1.unplaced := by
  induction pairs generalizing l with
  | nil => exact ⟨[], l.position, Passes.start hl, rfl⟩
  | cons p pairs ih =>
    obtain ⟨⟨hlexed, hfinish, hblank⟩, hpairs⟩ := List.forall_mem_cons.1 hpairs
    obtain ⟨hblanks, hgap, hbehind⟩ := hblanks.of_cons
    have hstart : l.rest = p.1.text.toList ++ (p.2 ++ spread pairs) := by
      rw [hl, spread, List.flatMap_cons, List.append_assoc]
      rfl
    obtain ⟨q, hpass⟩ :=
      (Passes.start hstart).scan (hlexed.scan_append hfinish hblank hbehind) hfinish hblank
    obtain ⟨q, hpass⟩ := hpass.blanks hgap (not_blank_spread hpairs)
    obtain ⟨ts, q', hrest, hts⟩ := ih (l := ⟨spread pairs, q⟩) hpairs hblanks rfl
    refine ⟨_, q', hpass.append hrest, ?_⟩
    rw [List.nil_append, List.singleton_append, List.map_cons, hts, List.map_cons]
    simp [Token.unplaced]

/-- **White space between tokens does not matter.** A text that spreads the tokens of a
source over white space, at least one blank between two of them, has tokens of the same
kinds and texts, and it is read to the same tree or the same error; only the place of an
unmatched bracket may be another. -/
theorem parse_spread {source : String} {lead : List Char} {pairs : List (Token × List Char)}
    (hsource : tokenize source = .ok (pairs.map Prod.fst))
    (hlead : ∀ c ∈ lead, Text.isBlank c = true) (hblanks : SpreadOverBlanks pairs) :
    (∃ ts, tokenize (String.ofList (lead ++ spread pairs)) = .ok ts ∧
      ts.map (fun t => (t.kind, t.text)) = pairs.map fun p => (p.1.kind, p.1.text)) ∧
    (parse source = parse (String.ofList (lead ++ spread pairs)) ∨
      ∃ bracket position position', parse source = .error (.unbalanced bracket position) ∧
        parse (String.ofList (lead ++ spread pairs)) =
          .error (.unbalanced bracket position')) := by
  have hpairs : ∀ p ∈ pairs, p.1.Lexed ∧ p.1.kind ≠ .finish ∧ p.1.kind ≠ .blank := by
    intro p hp
    have hmem : p.1 ∈ pairs.map Prod.fst := List.mem_map_of_mem hp
    obtain ⟨hfinish, hblank, -⟩ := Lexer.exists_next_of_tokens hsource p.1 hmem
    exact ⟨lexed_of_tokenize hsource p.1 hmem, hfinish, hblank⟩
  have hstart : (Lexer.ofString (String.ofList (lead ++ spread pairs))).rest =
      lead ++ spread pairs := String.toList_ofList
  obtain ⟨q, hpass⟩ := (Lexer.Passes.start hstart).blanks hlead (not_blank_spread hpairs)
  obtain ⟨ts, q', hrest, hts⟩ :=
    Lexer.exists_passes_spread (l := ⟨spread pairs, q⟩) hpairs hblanks rfl
  have htokens : tokenize (String.ofList (lead ++ spread pairs)) = .ok ts :=
    Lexer.tokens_at_end (hpass.append hrest) rfl
  refine ⟨⟨ts, htokens, ?_⟩, ?_⟩
  · have hshape := congrArg (List.map fun t => (t.kind, t.text)) hts
    simpa [Function.comp_def] using hshape
  · have hsame : (pairs.map Prod.fst).map Token.unplaced = ts.map Token.unplaced := by
      rw [hts, List.map_map]
      rfl
    rw [parse, parseSource, hsource, parse, parseSource, htokens]
    exact parseTokens_of_unplaced_eq hsame

/-- `3d6<='a b'` with its tokens pulled apart. -/
theorem parse_spread_dice :
    let pairs : List (Token × List Char) :=
      [(⟨.integer, "3", 0⟩, [' ']), (⟨.word, "d", 1⟩, ['\n']), (⟨.integer, "6", 2⟩, [' ', ' ']),
        (⟨.operator, "<=", 3⟩, ['\t']), (⟨.text, "'a b'", 5⟩, [])]
    (tokenize "3d6<='a b'" = .ok (pairs.map Prod.fst) ∧ SpreadOverBlanks pairs) ∧
      (∃ ts, tokenize " 3 d\n6  <=\t'a b'" = .ok ts ∧
        ts.map (fun t => (t.kind, t.text)) = pairs.map fun p => (p.1.kind, p.1.text)) ∧
      (parse "3d6<='a b'" = parse " 3 d\n6  <=\t'a b'" ∨
        ∃ bracket position position',
          parse "3d6<='a b'" = .error (.unbalanced bracket position) ∧
            parse " 3 d\n6  <=\t'a b'" = .error (.unbalanced bracket position')) := by
  intro pairs
  have hsource : tokenize "3d6<='a b'" = .ok (pairs.map Prod.fst) := by decide +kernel
  have hblanks : SpreadOverBlanks pairs := by
    constructor <;> simp [pairs, Text.isBlank, Text.blankRanges]
  have hlead : ∀ c ∈ [' '], Text.isBlank c = true := List.forall_mem_singleton.2 rfl
  exact ⟨⟨hsource, hblanks⟩, parse_spread hsource hlead hblanks⟩

end Formulary
