import Formulary.Expr.Span
import Formulary.Token.Lexer
import Formulary.Proofs.Except
import Mathlib.Data.List.TakeWhile

/-! The texts of tokens.

A lexeme is found from its own characters alone: scanned again by itself, the text of a
token is that token and nothing more (`scan_self`). So the kind and the text of a token
belong together (`Token.Lexed`), wherever in a source it stands. -/
namespace Formulary

/-! ### Scanning a lexeme again -/

namespace Scan

variable {kind kind' : TokenKind} {p : Char → Bool} {c : Char} {cs text rest : List Char}

theorem run_self (h : run kind p cs = .lexeme kind' text rest) :
    run kind p text = .lexeme kind' text [] := by
  obtain ⟨rfl, rfl, -⟩ := Scan.lexeme.inj h
  have hnil : (cs.takeWhile p).dropWhile p = [] :=
    List.dropWhile_eq_nil_iff.2 fun x hx => List.mem_takeWhile_imp hx
  rw [run, List.takeWhile_idem, hnil]

theorem withEqual_self (h : withEqual c cs = .lexeme kind (c :: text) rest) :
    withEqual c text = .lexeme kind (c :: text) [] := by
  unfold withEqual at h
  split at h <;>
  · obtain ⟨rfl, ht, -⟩ := Scan.lexeme.inj h
    obtain ⟨-, rfl⟩ := List.cons.inj ht
    rfl

theorem eq_of_dropWhile_quote {behind : List Char} {quote : Char}
    (h : cs.dropWhile (· ≠ '\'') = quote :: behind) : quote = '\'' := by
  have := List.head?_dropWhile_not (· ≠ '\'') cs
  rw [h] at this
  simpa using this

theorem quotedText_self (h : quotedText cs = .lexeme kind ('\'' :: text) rest) :
    quotedText text = .lexeme kind ('\'' :: text) [] := by
  unfold quotedText at h
  split at h
  · cases h
  · next quote behind heq =>
    obtain ⟨rfl, ht, -⟩ := Scan.lexeme.inj h
    rw [List.cons_append] at ht
    obtain ⟨-, rfl⟩ := List.cons.inj ht
    obtain rfl := eq_of_dropWhile_quote heq
    have hplain : ∀ x ∈ cs.takeWhile (· ≠ '\''), (fun y => decide (y ≠ '\'')) x = true :=
      fun x hx => List.mem_takeWhile_imp (p := (· ≠ '\'')) hx
    unfold quotedText
    rw [List.dropWhile_append_of_pos hplain, List.takeWhile_append_of_pos hplain]
    simp

theorem word_of_ne (h : c ≠ 'd') (cs : List Char) :
    word (c :: cs) = run .word continuesWord (c :: cs) := by
  unfold word
  split
  · next heq => exact absurd (List.cons.inj heq).1 h
  · rfl

theorem word_self (h : word (c :: cs) = .lexeme kind (c :: text) rest) :
    word (c :: text) = .lexeme kind (c :: text) [] := by
  by_cases hd : c = 'd'
  · subst hd
    by_cases hs : cs.head?.any startsWord = true
    · -- The character that keeps the `d` in the word is in the word itself.
      rw [word, if_pos hs] at h
      have hself := run_self h
      obtain ⟨rfl, ht, -⟩ := Scan.lexeme.inj h
      rw [List.takeWhile_cons_of_pos (by decide)] at ht
      obtain ⟨-, rfl⟩ := List.cons.inj ht
      have hs' : (cs.takeWhile continuesWord).head?.any startsWord = true := by
        cases cs with
        | nil => simp at hs
        | cons x xs =>
          have hx : startsWord x = true := by simpa using hs
          rw [List.takeWhile_cons_of_pos (by simp [continuesWord, hx])]
          simpa using hx
      rw [word, if_pos hs']
      exact hself
    · rw [word, if_neg hs] at h
      obtain ⟨rfl, ht, -⟩ := Scan.lexeme.inj h
      obtain ⟨-, rfl⟩ := List.cons.inj ht
      rfl
  · rw [word_of_ne hd] at h ⊢
    exact run_self h

end Scan

/-- The first character decides how a text is scanned. -/
theorem scan_cases (c : Char) :
    (Text.isBlank c = true ∧ ∀ cs, scan (c :: cs) = .run .blank Text.isBlank (c :: cs)) ∨
    (∃ kind, punctuation? c = some kind ∧ ∀ cs, scan (c :: cs) = .lexeme kind [c] cs) ∨
    ((c = '<' ∨ c = '>') ∧ ∀ cs, scan (c :: cs) = .withEqual c cs) ∨
    (c = '!' ∧ ∀ cs, scan (c :: cs) =
      if cs.head? = some '=' then .withEqual c cs else .unexpected c) ∨
    (c = '\'' ∧ ∀ cs, scan (c :: cs) = .quotedText cs) ∨
    (startsWord c = true ∧ ∀ cs, scan (c :: cs) = .word (c :: cs)) ∨
    (Text.isDigit c = true ∧ ∀ cs, scan (c :: cs) = .run .integer Text.isDigit (c :: cs)) ∨
    ∀ cs, scan (c :: cs) = .unexpected c := by
  by_cases hblank : Text.isBlank c = true
  · exact .inl ⟨hblank, fun cs => by rw [scan, if_pos hblank]⟩
  refine .inr ?_
  cases hpunct : punctuation? c with
  | some kind => exact .inl ⟨kind, rfl, fun cs => by rw [scan, if_neg hblank, hpunct]⟩
  | none =>
    refine .inr ?_
    have hscan (cs : List Char) : scan (c :: cs) =
        if c = '<' || c = '>' then .withEqual c cs
        else if c = '!' then if cs.head? = some '=' then .withEqual c cs else .unexpected c
        else if c = '\'' then .quotedText cs
        else if startsWord c then .word (c :: cs)
        else if Text.isDigit c then .run .integer Text.isDigit (c :: cs)
        else .unexpected c := by
      rw [scan, if_neg hblank, hpunct]
    simp only [Bool.or_eq_true, decide_eq_true_eq] at hscan
    by_cases hless : c = '<' ∨ c = '>'
    · exact .inl ⟨hless, fun cs => by rw [hscan, if_pos hless]⟩
    refine .inr ?_
    by_cases hbang : c = '!'
    · exact .inl ⟨hbang, fun cs => by rw [hscan, if_neg hless, if_pos hbang]⟩
    refine .inr ?_
    by_cases hquote : c = '\''
    · exact .inl ⟨hquote, fun cs => by rw [hscan, if_neg hless, if_neg hbang, if_pos hquote]⟩
    refine .inr ?_
    by_cases hword : startsWord c = true
    · exact .inl ⟨hword, fun cs => by
        rw [hscan, if_neg hless, if_neg hbang, if_neg hquote, if_pos hword]⟩
    refine .inr ?_
    by_cases hdigit : Text.isDigit c = true
    · exact .inl ⟨hdigit, fun cs => by
        rw [hscan, if_neg hless, if_neg hbang, if_neg hquote, if_neg hword, if_pos hdigit]⟩
    exact .inr fun cs => by
      rw [hscan, if_neg hless, if_neg hbang, if_neg hquote, if_neg hword, if_neg hdigit]

/-- A lexeme begins with the first character of the text. -/
theorem exists_cons_of_scan {kind : TokenKind} {c : Char} {cs text rest : List Char}
    (h : scan (c :: cs) = .lexeme kind text rest) : ∃ more, text = c :: more := by
  have hrun {kind' : TokenKind} {p : Char → Bool} (hp : p c = true)
      (h : Scan.run kind' p (c :: cs) = .lexeme kind text rest) : ∃ more, text = c :: more := by
    obtain ⟨-, rfl, -⟩ := Scan.lexeme.inj h
    exact ⟨_, List.takeWhile_cons_of_pos hp⟩
  have hequal (h : Scan.withEqual c cs = .lexeme kind text rest) : ∃ more, text = c :: more := by
    unfold Scan.withEqual at h
    split at h <;> exact ⟨_, (Scan.lexeme.inj h).2.1.symm⟩
  obtain ⟨hp, hs⟩ | ⟨_, -, hs⟩ | ⟨-, hs⟩ | ⟨-, hs⟩ | ⟨rfl, hs⟩ | ⟨hp, hs⟩ | ⟨hp, hs⟩ | hs :=
    scan_cases c <;> rw [hs] at h
  · exact hrun hp h
  · exact ⟨[], (Scan.lexeme.inj h).2.1.symm⟩
  · exact hequal h
  · split at h
    · exact hequal h
    · cases h
  · unfold Scan.quotedText at h
    split at h
    · cases h
    · exact ⟨_, (Scan.lexeme.inj h).2.1.symm⟩
  · have hc : continuesWord c = true := by simp [continuesWord, hp]
    unfold Scan.word at h
    split at h
    · next heq =>
      obtain ⟨rfl, rfl⟩ := List.cons.inj heq
      split at h
      · exact hrun hc h
      · exact ⟨[], (Scan.lexeme.inj h).2.1.symm⟩
    · exact hrun hc h
  · exact hrun hp h
  · cases h

/-- A lexeme scanned by itself is the same lexeme, to its end. -/
theorem scan_self {kind : TokenKind} {cs text rest : List Char}
    (h : scan cs = .lexeme kind text rest) : scan text = .lexeme kind text [] := by
  cases cs with
  | nil =>
    obtain ⟨rfl, rfl, -⟩ := Scan.lexeme.inj h
    rfl
  | cons c cs =>
    obtain ⟨more, rfl⟩ := exists_cons_of_scan h
    obtain ⟨-, hs⟩ | ⟨_, -, hs⟩ | ⟨-, hs⟩ | ⟨rfl, hs⟩ | ⟨rfl, hs⟩ | ⟨-, hs⟩ | ⟨-, hs⟩ | hs :=
      scan_cases c <;> rw [hs] at h ⊢
    · exact Scan.run_self h
    · obtain ⟨rfl, ht, -⟩ := Scan.lexeme.inj h
      obtain ⟨-, rfl⟩ := List.cons.inj ht
      rfl
    · exact Scan.withEqual_self h
    · split at h
      · next heq =>
        have hmore : more.head? = some '=' := by
          cases cs with
          | nil => simp at heq
          | cons x xs =>
            obtain rfl : x = '=' := by simpa using heq
            obtain ⟨-, ht, -⟩ := Scan.lexeme.inj h
            rw [← (List.cons.inj ht).2]
            rfl
        rw [if_pos hmore]
        exact Scan.withEqual_self h
      · cases h
    · exact Scan.quotedText_self h
    · exact Scan.word_self h
    · exact Scan.run_self h
    · cases h

/-! ### Tokens of the lexer -/

/-- The text of the token is one lexeme of its kind. -/
def Token.Lexed (t : Token) : Prop :=
  scan t.text.toList = .lexeme t.kind t.text.toList []

theorem Lexer.lexed_of_next {l l' : Lexer} {t : Token} (h : l.next = (.ok t, l')) : t.Lexed := by
  unfold next at h
  split at h
  · next kind text rest hscan =>
    obtain ⟨ht, -⟩ := Prod.mk.inj h
    obtain rfl := Except.ok.inj ht
    rw [Token.Lexed, String.toList_ofList]
    exact scan_self hscan
  · cases h
  · cases h

/-- A token and the text after it make up the text of the lexer. -/
theorem Lexer.text_append_of_next {l l' : Lexer} {t : Token} (h : l.next = (.ok t, l')) :
    t.text.toList ++ l'.rest = l.rest := by
  unfold next at h
  split at h
  · next kind text rest hscan =>
    obtain ⟨ht, rfl⟩ := Prod.mk.inj h
    obtain rfl := Except.ok.inj ht
    rw [String.toList_ofList]
    exact scan_append hscan
  · cases h
  · cases h

/-- Each token of a text is an answer of a lexer somewhere in it, and neither white space nor
the end. -/
theorem Lexer.exists_next_of_tokens {l : Lexer} {ts : List Token} (h : l.tokens = .ok ts) :
    ∀ t ∈ ts, t.kind ≠ .finish ∧ t.kind ≠ .blank ∧
      ∃ l₁ l₂, l₁.rest <:+ l.rest ∧ next l₁ = (.ok t, l₂) := by
  fun_induction Lexer.tokens l generalizing ts with
  | case1 => cases h
  | case2 =>
    obtain rfl := Except.ok.inj h
    exact fun _ ht => nomatch ht
  | case3 l t l' hnext hkind ih =>
    obtain ⟨following, hfollowing, h⟩ := bind_eq_ok_iff.1 h
    obtain rfl := Except.ok.inj h
    have hrest : l'.rest <:+ l.rest := ⟨_, text_append_of_next hnext⟩
    have hlater : ∀ t ∈ following, t.kind ≠ .finish ∧ t.kind ≠ .blank ∧
        ∃ l₁ l₂, l₁.rest <:+ l.rest ∧ next l₁ = (.ok t, l₂) := by
      intro t ht
      obtain ⟨hfinish, hblank, l₁, l₂, hsuffix, hnext⟩ := ih hfollowing t ht
      exact ⟨hfinish, hblank, l₁, l₂, hsuffix.trans hrest, hnext⟩
    split
    · exact hlater
    · next hblank =>
      exact List.forall_mem_cons.2
        ⟨⟨hkind, hblank, l, l', List.suffix_refl _, hnext⟩, hlater⟩

/-- The text of a token stands in the text that is read. -/
theorem Lexer.text_infix_of_tokens {l : Lexer} {ts : List Token} (h : l.tokens = .ok ts) :
    ∀ t ∈ ts, t.text.toList <:+: l.rest := by
  intro t ht
  obtain ⟨-, -, l₁, l₂, hsuffix, hnext⟩ := exists_next_of_tokens h t ht
  have htext : t.text.toList <+: l₁.rest := ⟨l₂.rest, text_append_of_next hnext⟩
  exact htext.isInfix.trans hsuffix.isInfix

theorem lexed_of_tokenize {source : String} {ts : List Token} (h : tokenize source = .ok ts) :
    ∀ t ∈ ts, t.Lexed := by
  intro t ht
  obtain ⟨-, -, l, l', -, hnext⟩ := Lexer.exists_next_of_tokens h t ht
  exact Lexer.lexed_of_next hnext

/-! ### What the kind of a token says about its text -/

/-- The spelling of the kinds that have just one. -/
def TokenKind.spelling? : TokenKind → Option String
  | .openParen => some "("
  | .closeParen => some ")"
  | .openBracket => some "["
  | .closeBracket => some "]"
  | .comma => some ","
  | _ => none

theorem punctuation?_cases {c : Char} {kind : TokenKind} (h : punctuation? c = some kind) :
    kind = .operator ∨ kind.spelling? = some (String.singleton c) := by
  unfold punctuation? at h
  split at h <;> first | exact .inl (Option.some.inj h).symm | (cases h; exact .inr rfl) | cases h

theorem Scan.kind_of_withEqual {kind : TokenKind} {c : Char} {cs text rest : List Char}
    (h : withEqual c cs = .lexeme kind text rest) : kind = .operator := by
  unfold withEqual at h
  split at h <;> exact (Scan.lexeme.inj h).1.symm

theorem Scan.content_of_quotedText {kind : TokenKind} {cs text rest : List Char}
    (h : quotedText cs = .lexeme kind text rest) :
    kind = .text ∧ ∃ content, text = '\'' :: (content ++ ['\'']) := by
  unfold quotedText at h
  split at h
  · cases h
  · next quote behind heq =>
    obtain ⟨rfl, rfl, -⟩ := Scan.lexeme.inj h
    exact ⟨rfl, _, by rw [eq_of_dropWhile_quote heq]; rfl⟩

theorem Scan.kind_of_word {kind : TokenKind} {cs text rest : List Char}
    (h : word cs = .lexeme kind text rest) : kind = .word := by
  unfold word at h
  split at h
  · split at h <;> exact (Scan.lexeme.inj h).1.symm
  · exact (Scan.lexeme.inj h).1.symm

namespace Token.Lexed

variable {t : Token}

/-- The kinds of lexemes, with what each says about the text. -/
theorem kind_cases (h : t.Lexed) :
    t.kind = .finish ∨ t.kind = .blank ∨ t.kind = .operator ∨
    (t.kind = .text ∧ ∃ content, t.text.toList = '\'' :: (content ++ ['\''])) ∨
    t.kind.spelling? = some t.text ∨
    (t.kind = .word ∧ ∃ c cs, t.text.toList = c :: cs ∧ startsWord c = true) ∨
    (t.kind = .integer ∧ t.text.toList ≠ [] ∧ t.text.toList.all Text.isDigit = true) := by
  unfold Lexed at h
  cases htext : t.text.toList with
  | nil =>
    rw [htext] at h
    exact .inl (Scan.lexeme.inj h).1.symm
  | cons c cs =>
    refine .inr ?_
    rw [htext] at h
    obtain ⟨-, hs⟩ | ⟨kind, hk, hs⟩ | ⟨-, hs⟩ | ⟨-, hs⟩ | ⟨-, hs⟩ | ⟨hc, hs⟩ | ⟨-, hs⟩ | hs :=
      scan_cases c <;> rw [hs] at h
    · exact .inl (Scan.lexeme.inj h).1.symm
    · obtain ⟨hkind, ht, -⟩ := Scan.lexeme.inj h
      rw [← hkind]
      rcases punctuation?_cases hk with hop | hsp
      · exact .inr (.inl hop)
      · refine .inr (.inr (.inr (.inl ?_)))
        rw [hsp, ← String.ofList_toList (s := t.text), htext, ← ht]
        rfl
    · exact .inr (.inl (Scan.kind_of_withEqual h))
    · split at h
      · exact .inr (.inl (Scan.kind_of_withEqual h))
      · cases h
    · exact .inr (.inr (.inl (Scan.content_of_quotedText h)))
    · exact .inr (.inr (.inr (.inr (.inl ⟨Scan.kind_of_word h, c, cs, rfl, hc⟩))))
    · obtain ⟨hkind, ht, -⟩ := Scan.lexeme.inj h
      refine .inr (.inr (.inr (.inr (.inr ⟨hkind.symm, List.cons_ne_nil _ _, ?_⟩))))
      rw [← ht]
      exact List.all_takeWhile
    · cases h

/-- Brackets and commas are spelled as their kind. -/
theorem text_eq_spelling (h : t.Lexed) {spelling : String} (hs : t.kind.spelling? = some spelling) :
    t.text = spelling := by
  rcases h.kind_cases with hk | hk | hk | ⟨hk, -⟩ | hk | ⟨hk, -⟩ | ⟨hk, -⟩ <;> rw [hk] at hs
  all_goals first | exact Option.some.inj hs | cases hs

/-- A number is written in digits alone. -/
theorem digits_of_kind (h : t.Lexed) (hk : t.kind = .integer) :
    t.text.toList ≠ [] ∧ t.text.toList.all Text.isDigit = true := by
  rcases h.kind_cases with hk' | hk' | hk' | ⟨hk', -⟩ | hk' | ⟨hk', -⟩ | ⟨-, hd⟩
  all_goals first | exact hd | (rw [hk] at hk'; cases hk')

/-- A text stands between its quotes. -/
theorem text_eq_quoted (h : t.Lexed) (hk : t.kind = .text) :
    ∃ content, t.text.toList = '\'' :: (content ++ ['\'']) := by
  rcases h.kind_cases with hk' | hk' | hk' | ⟨-, hc⟩ | hk' | ⟨hk', -⟩ | ⟨hk', -⟩
  all_goals first | exact hc | (rw [hk] at hk'; cases hk')

/-- The word operators are words. -/
theorem kind_of_isWordOperator (h : t.Lexed) (hw : isWordOperator t.text = true) :
    t.kind = .word := by
  unfold Lexed at h
  unfold isWordOperator at hw
  split at hw
  all_goals first
    | (next heq => rw [heq] at h; exact (Scan.lexeme.inj h).1.symm)
    | cases hw

end Token.Lexed

end Formulary
