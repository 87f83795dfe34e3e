import Formulary.Proofs.Boundary
import Formulary.Proofs.Lexing

/-! What a lexer answers, call after call.

`IsLexeme` says which texts are lexemes of a kind, and `Reaches` how far a lexeme goes into
the text ahead; `scan_eq_lexeme_iff` and `scan_spec` say that these two decide what is found.
From one answer (`Lexer.next_cases`) follow all the answers of a lexer that is asked again
and again: up to the first error its tokens tile the text. -/
namespace Formulary

/-! ### Lexemes -/

/-- The lexemes that are spelled out. -/
def spellings : List (TokenKind × List Char) :=
  [(.openParen, ['(']), (.closeParen, [')']), (.openBracket, ['[']), (.closeBracket, [']']),
   (.comma, [',']), (.operator, ['+']), (.operator, ['-']), (.operator, ['*']),
   (.operator, ['/']), (.operator, ['%']), (.operator, ['^']), (.operator, ['=']),
   (.operator, ['.']), (.operator, ['<']), (.operator, ['<', '=']), (.operator, ['>']),
   (.operator, ['>', '=']), (.operator, ['!', '='])]

/-- The lexemes of each kind. -/
inductive IsLexeme : TokenKind → List Char → Prop where
  | finish : IsLexeme .finish []
  | blank {cs : List Char} (hne : cs ≠ []) (h : ∀ c ∈ cs, Text.isBlank c = true) :
      IsLexeme .blank cs
  | integer {cs : List Char} (hne : cs ≠ []) (h : ∀ c ∈ cs, Text.isDigit c = true) :
      IsLexeme .integer cs
  | word {c : Char} {cs : List Char} (hc : startsWord c = true)
      (h : ∀ x ∈ cs, continuesWord x = true) : IsLexeme .word (c :: cs)
  | text {content : List Char} (h : '\'' ∉ content) :
      IsLexeme .text ('\'' :: (content ++ ['\'']))
  | spelled {kind : TokenKind} {cs : List Char} (h : (kind, cs) ∈ spellings) : IsLexeme kind cs

/-- A `d` with neither a letter nor an underscore after it. -/
def LoneDice (cs : List Char) : Prop :=
  ∃ after, cs = 'd' :: after ∧ ∀ c ∈ after.head?, startsWord c = false

/-- A lexeme goes as far as it can before the rest of the text. Only a word that begins
with a lone `d` is that `d`. -/
def Reaches (text rest : List Char) : TokenKind → Prop
  | .finish => rest = []
  | .blank => ∀ c ∈ rest.head?, Text.isBlank c = false
  | .integer => EndsDigits rest
  | .word => LoneDice (text ++ rest) ∧ text = ['d'] ∨ ¬ LoneDice (text ++ rest) ∧ EndsWord rest
  | .operator => rest.head? = some '=' → (.operator, text ++ ['=']) ∉ spellings
  | _ => True

theorem IsLexeme.ne_nil {kind : TokenKind} {cs : List Char} (h : IsLexeme kind cs)
    (hkind : kind ≠ .finish) : cs ≠ [] := by
  cases h with
  | finish => exact absurd rfl hkind
  | blank hne | integer hne => exact hne
  | word | text => exact List.cons_ne_nil _ _
  | spelled h =>
    rintro rfl
    simp [spellings] at h

theorem IsLexeme.eq_nil {cs : List Char} (h : IsLexeme .finish cs) : cs = [] := by
  cases h with
  | finish => rfl
  | spelled h => simp [spellings] at h

theorem loneDice_cons_iff {c : Char} {cs : List Char} :
    LoneDice (c :: cs) ↔ c = 'd' ∧ cs.head?.any startsWord = false := by
  constructor
  · rintro ⟨after, h, hafter⟩
    obtain ⟨rfl, rfl⟩ := List.cons.inj h
    refine ⟨rfl, ?_⟩
    cases cs with
    | nil => rfl
    | cons x xs => exact hafter x rfl
  · rintro ⟨rfl, hcs⟩
    refine ⟨cs, rfl, fun x hx => ?_⟩
    rw [Option.mem_def.1 hx] at hcs
    exact hcs

/-! ### What is found -/

namespace Scan

variable {kind kind' : TokenKind} {p : Char → Bool} {c : Char} {cs text rest : List Char}

theorem run_spec (hc : p c = true) (h : run kind p (c :: cs) = .lexeme kind' text rest) :
    kind = kind' ∧ (∃ more, text = c :: more ∧ ∀ x ∈ more, p x = true) ∧
      ∀ x ∈ rest.head?, p x = false := by
  obtain ⟨rfl, rfl, rfl⟩ := Scan.lexeme.inj h
  rw [List.takeWhile_cons_of_pos hc, List.dropWhile_cons_of_pos hc]
  refine ⟨rfl, ⟨_, rfl, fun x hx => List.mem_takeWhile_imp hx⟩, fun x hx => ?_⟩
  have hstop := List.head?_dropWhile_not p cs
  rw [Option.mem_def.1 hx] at hstop
  exact hstop

theorem withEqual_spec (hless : (TokenKind.operator, [c]) ∈ spellings ∨ cs.head? = some '=')
    (hequal : (TokenKind.operator, [c, '=']) ∈ spellings)
    (h : withEqual c cs = .lexeme kind text rest) : IsLexeme kind text ∧ Reaches text rest kind := by
  unfold withEqual at h
  split at h
  · obtain ⟨rfl, rfl, rfl⟩ := Scan.lexeme.inj h
    refine ⟨.spelled hequal, fun _ hmem => ?_⟩
    simp [spellings] at hmem
  · next hne =>
    obtain ⟨rfl, rfl, rfl⟩ := Scan.lexeme.inj h
    have hhead : cs.head? ≠ some '=' := by
      intro hhead
      obtain ⟨after, rfl⟩ := List.head?_eq_some_iff.1 hhead
      exact hne after rfl
    exact ⟨.spelled (hless.resolve_right hhead), fun h => absurd h hhead⟩

theorem quotedText_spec (h : quotedText cs = .lexeme kind text rest) :
    IsLexeme kind text ∧ Reaches text rest kind := by
  unfold quotedText at h
  split at h
  · cases h
  · next quote behind heq =>
    obtain ⟨rfl, rfl, -⟩ := Scan.lexeme.inj h
    obtain rfl := eq_of_dropWhile_quote heq
    refine ⟨.text fun hmem => ?_, trivial⟩
    simpa using List.mem_takeWhile_imp hmem

theorem word_spec (hc : startsWord c = true) (h : word (c :: cs) = .lexeme kind text rest) :
    IsLexeme kind text ∧ Reaches text rest kind := by
  have happend := word_append h
  have hcontinues : continuesWord c = true := by simp [continuesWord, hc]
  have hrun (hlone : ¬ LoneDice (c :: cs))
      (h : run .word continuesWord (c :: cs) = .lexeme kind text rest) :
      IsLexeme kind text ∧ Reaches text rest kind := by
    obtain ⟨rfl, ⟨more, rfl, hmore⟩, hrest⟩ := run_spec hcontinues h
    exact ⟨.word hc hmore, .inr ⟨happend ▸ hlone, hrest⟩⟩
  by_cases hd : c = 'd'
  · subst hd
    rw [word] at h
    split at h
    · next hs => exact hrun (fun hlone => by simp [loneDice_cons_iff.1 hlone] at hs) h
    · next hs =>
      obtain ⟨rfl, rfl, -⟩ := Scan.lexeme.inj h
      have hlone : LoneDice ('d' :: cs) := loneDice_cons_iff.2 ⟨rfl, Bool.eq_false_iff.2 hs⟩
      exact ⟨.word rfl (List.forall_mem_nil _), .inl ⟨happend ▸ hlone, rfl⟩⟩
  · rw [word_of_ne hd] at h
    exact hrun (fun hlone => hd (loneDice_cons_iff.1 hlone).1) h

end Scan

theorem punctuation?_mem_spellings {c : Char} {kind : TokenKind} (h : punctuation? c = some kind) :
    (kind, [c]) ∈ spellings ∧ ∀ rest, Reaches [c] rest kind := by
  unfold punctuation? at h
  split at h
  case h_14 => cases h
  all_goals
    obtain rfl := Option.some.inj h
    first
      | exact ⟨by decide, fun _ => trivial⟩
      | exact ⟨by decide, fun _ _ => by decide⟩

/-- What is found is a lexeme that goes as far as it can. -/
theorem isLexeme_of_scan {kind : TokenKind} {cs text rest : List Char}
    (h : scan cs = .lexeme kind text rest) : IsLexeme kind text ∧ Reaches text rest kind := by
  cases cs with
  | nil =>
    obtain ⟨rfl, rfl, rfl⟩ := Scan.lexeme.inj h
    exact ⟨.finish, rfl⟩
  | cons c cs =>
    obtain ⟨hc, hs⟩ | ⟨_, hk, hs⟩ | ⟨hc, hs⟩ | ⟨rfl, hs⟩ | ⟨rfl, hs⟩ | ⟨hc, hs⟩ | ⟨hc, hs⟩ | hs :=
      scan_cases c <;> rw [hs] at h
    · obtain ⟨rfl, ⟨more, rfl, hmore⟩, hrest⟩ := Scan.run_spec hc h
      exact ⟨.blank (List.cons_ne_nil _ _) (List.forall_mem_cons.2 ⟨hc, hmore⟩), hrest⟩
    · obtain ⟨rfl, rfl, rfl⟩ := Scan.lexeme.inj h
      exact ⟨.spelled (punctuation?_mem_spellings hk).1, (punctuation?_mem_spellings hk).2 _⟩
    · rcases hc with rfl | rfl
      · exact Scan.withEqual_spec (.inl (by decide)) (by decide) h
      · exact Scan.withEqual_spec (.inl (by decide)) (by decide) h
    · split at h
      · next hequal => exact Scan.withEqual_spec (.inr hequal) (by decide) h
      · cases h
    · exact Scan.quotedText_spec h
    · exact Scan.word_spec hc h
    · obtain ⟨rfl, ⟨more, rfl, hmore⟩, hrest⟩ := Scan.run_spec hc h
      exact ⟨.integer (List.cons_ne_nil _ _) (List.forall_mem_cons.2 ⟨hc, hmore⟩), hrest⟩
    · cases h

/-- What is spelled out is found by its spelling, but for a sign that may go on with `=`. -/
theorem scan_of_mem_spellings {kind : TokenKind} {text : List Char} (h : (kind, text) ∈ spellings)
    (rest : List Char) :
    scan (text ++ rest) = .lexeme kind text rest ∨
      kind = .operator ∧ ∃ c, text = [c] ∧ (TokenKind.operator, [c, '=']) ∈ spellings ∧
        scan (text ++ rest) = .withEqual c rest := by
  simp only [spellings, List.mem_cons, Prod.mk.injEq, List.not_mem_nil, or_false] at h
  rcases h with ⟨rfl, rfl⟩ | ⟨rfl, rfl⟩ | ⟨rfl, rfl⟩ | ⟨rfl, rfl⟩ | ⟨rfl, rfl⟩ | ⟨rfl, rfl⟩ |
    ⟨rfl, rfl⟩ | ⟨rfl, rfl⟩ | ⟨rfl, rfl⟩ | ⟨rfl, rfl⟩ | ⟨rfl, rfl⟩ | ⟨rfl, rfl⟩ | ⟨rfl, rfl⟩ |
    ⟨rfl, rfl⟩ | ⟨rfl, rfl⟩ | ⟨rfl, rfl⟩ | ⟨rfl, rfl⟩ | ⟨rfl, rfl⟩
  all_goals first
    | exact .inl rfl
    | exact .inr ⟨rfl, _, rfl, by decide, rfl⟩

/-- How a text is scanned that begins with a lexeme. -/
theorem scan_of_isLexeme_cases {kind : TokenKind} {text : List Char} (h : IsLexeme kind text)
    (hkind : kind ≠ .finish) (rest : List Char) :
    (kind = .blank ∧ scan (text ++ rest) = .run .blank Text.isBlank (text ++ rest)) ∨
    (kind = .integer ∧ scan (text ++ rest) = .run .integer Text.isDigit (text ++ rest)) ∨
    (kind = .word ∧ scan (text ++ rest) = .word (text ++ rest)) ∨
    scan (text ++ rest) = .lexeme kind text rest ∨
    kind = .operator ∧ ∃ c, text = [c] ∧ (TokenKind.operator, [c, '=']) ∈ spellings ∧
      scan (text ++ rest) = .withEqual c rest := by
  cases h with
  | finish => exact absurd rfl hkind
  | blank hne hcs =>
    cases text with
    | nil => exact absurd rfl hne
    | cons c cs =>
      refine .inl ⟨rfl, ?_⟩
      rw [List.cons_append, scan, if_pos (hcs c List.mem_cons_self)]
  | integer hne hcs =>
    cases text with
    | nil => exact absurd rfl hne
    | cons c cs => exact .inr (.inl ⟨rfl, scan_digit (hcs c List.mem_cons_self) _⟩)
  | word hc => exact .inr (.inr (.inl ⟨rfl, scan_of_startsWord hc _⟩))
  | text hcontent =>
    refine .inr (.inr (.inr (.inl ?_)))
    simpa using scan_quoted hcontent rest
  | spelled hmem => exact .inr (.inr (.inr (scan_of_mem_spellings hmem rest)))

/-- A lexeme that goes as far as it can is found. -/
theorem scan_append_of_isLexeme {kind : TokenKind} {text rest : List Char} (h : IsLexeme kind text)
    (hrest : Reaches text rest kind) : scan (text ++ rest) = .lexeme kind text rest := by
  by_cases hkind : kind = .finish
  · subst hkind
    obtain rfl : rest = [] := hrest
    obtain rfl := h.eq_nil
    rfl
  obtain ⟨rfl, hs⟩ | ⟨rfl, hs⟩ | ⟨rfl, hs⟩ | hs | ⟨rfl, c, rfl, hmem, hs⟩ :=
    scan_of_isLexeme_cases h hkind rest
  · cases h with
    | blank _ hcs => rw [hs, Scan.run_append_of_stop hcs hrest]
    | spelled hmem => simp [spellings] at hmem
  · cases h with
    | integer _ hcs => rw [hs, Scan.run_append_of_stop hcs hrest]
    | spelled hmem => simp [spellings] at hmem
  · cases h with
    | spelled hmem => simp [spellings] at hmem
    | @word c cs hc hcs =>
      rw [hs, List.cons_append]
      rcases hrest with ⟨hlone, heq⟩ | ⟨hlone, hrest⟩
      · obtain ⟨rfl, rfl⟩ := List.cons.inj heq
        have hhead : rest.head?.any startsWord = false := (loneDice_cons_iff.1 hlone).2
        simp [Scan.word, hhead]
      · have hrun : Scan.run .word continuesWord (c :: cs ++ rest) = .lexeme .word (c :: cs) rest :=
          Scan.run_append_of_stop
            (List.forall_mem_cons.2 ⟨by simp [continuesWord, hc], hcs⟩) hrest
        by_cases hd : c = 'd'
        · subst hd
          have hhead : (cs ++ rest).head?.any startsWord = true := by
            rw [← Bool.not_eq_false]
            exact fun hhead => hlone (loneDice_cons_iff.2 ⟨rfl, hhead⟩)
          rw [Scan.word, if_pos hhead]
          exact hrun
        · rw [Scan.word_of_ne hd]
          exact hrun
  · exact hs
  · rw [hs]
    unfold Scan.withEqual
    split
    · exact absurd hmem (hrest rfl)
    · rfl

/-- The lexeme at the head of a text is the one that goes as far as it can. -/
theorem scan_eq_lexeme_iff {kind : TokenKind} {cs text rest : List Char} :
    scan cs = .lexeme kind text rest ↔
      text ++ rest = cs ∧ IsLexeme kind text ∧ Reaches text rest kind := by
  constructor
  · exact fun h => ⟨scan_append h, isLexeme_of_scan h⟩
  · rintro ⟨rfl, h, hrest⟩
    exact scan_append_of_isLexeme h hrest

theorem Scan.exists_of_withEqual (c : Char) (cs : List Char) :
    ∃ text rest, withEqual c cs = .lexeme .operator text rest := by
  unfold withEqual
  split <;> exact ⟨_, _, rfl⟩

theorem Scan.exists_of_word (cs : List Char) : ∃ text rest, word cs = .lexeme .word text rest := by
  unfold word
  split
  · split <;> exact ⟨_, _, rfl⟩
  · exact ⟨_, _, rfl⟩

/-- Where a lexeme begins, one is found. -/
theorem exists_lexeme_of_isLexeme {kind : TokenKind} {text : List Char} (h : IsLexeme kind text)
    (hkind : kind ≠ .finish) (rest : List Char) :
    ∃ text' rest', scan (text ++ rest) = .lexeme kind text' rest' := by
  obtain ⟨rfl, hs⟩ | ⟨rfl, hs⟩ | ⟨rfl, hs⟩ | hs | ⟨rfl, c, -, -, hs⟩ :=
    scan_of_isLexeme_cases h hkind rest
  · exact ⟨_, _, hs⟩
  · exact ⟨_, _, hs⟩
  · exact hs ▸ Scan.exists_of_word _
  · exact ⟨_, _, hs⟩
  · exact hs ▸ Scan.exists_of_withEqual c rest

/-- Where nothing is found, the first character is unexpected, or a quote without partner. -/
theorem scan_cons_cases (c : Char) (cs : List Char) :
    (∃ kind text rest, scan (c :: cs) = .lexeme kind text rest) ∨
    scan (c :: cs) = .unexpected c ∨
    c = '\'' ∧ '\'' ∉ cs ∧ scan (c :: cs) = .unterminated := by
  obtain ⟨-, hs⟩ | ⟨kind, -, hs⟩ | ⟨-, hs⟩ | ⟨-, hs⟩ | ⟨hc, hs⟩ | ⟨-, hs⟩ | ⟨-, hs⟩ | hs :=
    scan_cases c <;> rw [hs cs]
  · exact .inl ⟨_, _, _, rfl⟩
  · exact .inl ⟨_, _, _, rfl⟩
  · exact .inl ⟨_, Scan.exists_of_withEqual c cs⟩
  · split
    · exact .inl ⟨_, Scan.exists_of_withEqual c cs⟩
    · exact .inr (.inl rfl)
  · unfold Scan.quotedText
    split
    · next hnil =>
      refine .inr (.inr ⟨hc, fun hmem => ?_, rfl⟩)
      simpa using List.dropWhile_eq_nil_iff.1 hnil _ hmem
    · exact .inl ⟨_, _, _, rfl⟩
  · exact .inl ⟨_, Scan.exists_of_word _⟩
  · exact .inl ⟨_, _, _, rfl⟩
  · exact .inr (.inl rfl)

/-! ### One answer -/

namespace Lexer

/-- A lexer finds a lexeme, or it stays before a character that starts none, or it goes to
the end over a quote without partner. -/
theorem next_cases (l : Lexer) :
    (∃ t rest, l.next = (.ok t, ⟨rest, l.position + Text.byteLength t.text.toList⟩) ∧
      t.offset = l.position ∧ l.rest = t.text.toList ++ rest ∧
      IsLexeme t.kind t.text.toList ∧ Reaches t.text.toList rest t.kind) ∨
    (∃ c, l.next = (.error (.unexpectedChar c l.position), l) ∧ l.rest.head? = some c ∧
      ∀ kind text rest, kind ≠ .finish → l.rest = text ++ rest → ¬ IsLexeme kind text) ∨
    ∃ after, l.rest = '\'' :: after ∧ '\'' ∉ after ∧
      l.next = (.error (.unterminatedText l.position),
        ⟨[], l.position + Text.byteLength l.rest⟩) := by
  have hlexeme {kind : TokenKind} {text rest : List Char}
      (hs : scan l.rest = .lexeme kind text rest) :
      ∃ t rest, l.next = (.ok t, ⟨rest, l.position + Text.byteLength t.text.toList⟩) ∧
        t.offset = l.position ∧ l.rest = t.text.toList ++ rest ∧
        IsLexeme t.kind t.text.toList ∧ Reaches t.text.toList rest t.kind := by
    obtain ⟨happend, hkind, hrest⟩ := scan_eq_lexeme_iff.1 hs
    refine ⟨⟨kind, String.ofList text, l.position⟩, rest, ?_, rfl, ?_⟩ <;>
      simp only [String.toList_ofList]
    · rw [next, hs]
    · exact ⟨happend.symm, hkind, hrest⟩
  cases hl : l.rest with
  | nil =>
    rw [hl] at hlexeme
    exact .inl (hlexeme rfl)
  | cons c cs =>
    obtain ⟨kind, text, rest, hs⟩ | hs | ⟨rfl, hcs, hs⟩ := scan_cons_cases c cs
    · rw [hl] at hlexeme
      exact .inl (hlexeme hs)
    · refine .inr (.inl ⟨c, by rw [next, hl, hs], rfl, fun kind text rest hkind happend h => ?_⟩)
      obtain ⟨_, _, hfound⟩ := exists_lexeme_of_isLexeme h hkind rest
      rw [← happend, hs] at hfound
      cases hfound
    · exact .inr (.inr ⟨cs, rfl, hcs, by rw [next, hl, hs]⟩)

theorem next_at_end {l : Lexer} (h : l.rest = []) : l.next = (.ok ⟨.finish, "", l.position⟩, l) := by
  obtain ⟨rest, position⟩ := l
  obtain rfl : rest = [] := h
  rfl

/-! ### All answers -/

/-- The lexer after some questions. -/
def after : Nat → Lexer → Lexer
  | 0, l => l
  | n + 1, l => l.next.2.after n

/-- The answer to question `n`, the first one being 0. -/
def answer (n : Nat) (l : Lexer) : Except LexError Token :=
  (l.after n).next.1

/-- The answers to the first `n` questions. -/
def answers (n : Nat) (l : Lexer) : List (Except LexError Token) :=
  (List.range n).map l.answer

theorem answers_succ (n : Nat) (l : Lexer) :
    l.answers (n + 1) = l.next.1 :: l.next.2.answers n := by
  rw [answers, List.range_succ_eq_map, List.map_cons, List.map_map]
  rfl

theorem after_add (m n : Nat) (l : Lexer) : l.after (m + n) = (l.after m).after n := by
  induction m generalizing l with
  | zero => rw [Nat.zero_add, after]
  | succ m ih => rw [Nat.succ_add, after, after, ih]

theorem answer_add (m n : Nat) (l : Lexer) : l.answer (m + n) = (l.after m).answer n := by
  rw [answer, after_add, answer]

/-- A lexer that does not move goes on with the same answer. -/
theorem answer_of_stays {l : Lexer} (h : l.next.2 = l) (n : Nat) : l.answer n = l.next.1 := by
  induction n with
  | zero => rfl
  | succ n ih => rw [answer, after, h, ← answer, ih]

/-- The texts of tokens, one behind the other. -/
def covered (ts : List Token) : List Char :=
  ts.flatMap fun t => t.text.toList

/-- The tokens that a lexer has given are the text it has passed. -/
theorem after_of_answers {l : Lexer} {ts : List Token} (h : l.answers ts.length = ts.map .ok) :
    l.rest = covered ts ++ (l.after ts.length).rest ∧
      (l.after ts.length).position = l.position + Text.byteLength (covered ts) := by
  induction ts generalizing l with
  | nil => exact ⟨rfl, rfl⟩
  | cons t ts ih =>
    rw [List.length_cons, answers_succ, List.map_cons] at h
    obtain ⟨hnext, hafter⟩ := List.cons.inj h
    obtain ⟨hrest, hposition⟩ := ih hafter
    obtain ⟨t', rest, hl, -, happend, -⟩ | ⟨c, hl, -⟩ | ⟨after, -, -, hl⟩ := l.next_cases <;>
      rw [hl] at hnext hrest hposition <;> cases hnext
    rw [List.length_cons, Lexer.after, hl, happend]
    have hcovered : covered (t :: ts) = t.text.toList ++ covered ts := List.flatMap_cons
    dsimp only at hrest hposition ⊢
    constructor
    · rw [hcovered, List.append_assoc, ← hrest]
    · rw [hcovered, hposition, Text.byteLength_append, Nat.add_assoc]

/-- What a lexer answers that has passed one part of a text and has another part ahead, and
what it answers to all later questions. -/
def Tells (passed ahead : List Char) (later : Nat → Except LexError Token) :
    Except LexError Token → Prop
  | .ok t =>
    t.offset = Text.byteLength passed ∧
    (∃ rest, ahead = t.text.toList ++ rest ∧ Reaches t.text.toList rest t.kind) ∧
    IsLexeme t.kind t.text.toList ∧
    Text.IsBoundary (t.offset + Text.byteLength t.text.toList) (String.ofList (passed ++ ahead)) ∧
    (t.kind ≠ .finish → t.text ≠ "") ∧
    (t.kind = .finish ↔ ahead = []) ∧
    (t.kind = .finish → ∀ n, later n = .ok t)
  | .error (.unexpectedChar c position) =>
    position = Text.byteLength passed ∧
    ahead.head? = some c ∧
    (∀ kind text rest, kind ≠ .finish → ahead = text ++ rest → ¬ IsLexeme kind text) ∧
    ∀ n, later n = .error (.unexpectedChar c position)
  | .error (.unterminatedText position) =>
    position = Text.byteLength passed ∧
    (∃ rest, ahead = '\'' :: rest ∧ '\'' ∉ rest) ∧
    ∀ n, later n = .ok ⟨.finish, "", Text.byteLength (passed ++ ahead)⟩

theorem kind_finish_iff {t : Token} {rest : List Char} (h : IsLexeme t.kind t.text.toList)
    (hrest : Reaches t.text.toList rest t.kind) :
    t.kind = .finish ↔ t.text.toList ++ rest = [] := by
  constructor
  · intro hkind
    rw [hkind] at h hrest
    obtain rfl : rest = [] := hrest
    rw [List.append_nil, h.eq_nil]
  · intro hnil
    by_contra hkind
    exact h.ne_nil hkind (List.append_eq_nil_iff.1 hnil).1

theorem tells {l : Lexer} {passed : List Char} (h : l.position = Text.byteLength passed) :
    Tells passed l.rest (fun n => l.answer (n + 1)) l.next.1 := by
  have hlater (n : Nat) : l.answer (n + 1) = l.next.2.answer n := rfl
  obtain ⟨t, rest, hnext, hoffset, happend, hkind, hrest⟩ | ⟨c, hnext, hhead, hnone⟩ |
      ⟨after, happend, hafter, hnext⟩ := l.next_cases
  · rw [hnext]
    have hfinish := kind_finish_iff hkind hrest
    refine ⟨hoffset.trans h, ⟨rest, happend, hrest⟩, hkind, ?_, fun hne hempty => ?_,
      happend ▸ hfinish, fun hkind n => ?_⟩
    · refine ⟨passed ++ t.text.toList, rest, ?_, ?_⟩
      · rw [String.toList_ofList, happend, List.append_assoc]
      · rw [Text.byteLength_append, hoffset, h]
    · exact hkind.ne_nil hne (hempty ▸ rfl)
    · have hend : l.rest = [] := happend.trans (hfinish.1 hkind)
      have hnext' := next_at_end hend
      obtain ⟨ht, -⟩ := Prod.mk.inj (hnext.symm.trans hnext')
      show l.answer (n + 1) = _
      rw [answer_of_stays (by rw [hnext']), hnext', ht]
  · rw [hnext]
    refine ⟨h, hhead, hnone, fun n => ?_⟩
    show l.answer (n + 1) = _
    rw [answer_of_stays (by rw [hnext]), hnext]
  · rw [hnext]
    refine ⟨h, ⟨after, happend, hafter⟩, fun n => ?_⟩
    show l.answer (n + 1) = _
    rw [hlater, hnext, answer_of_stays (by rw [next_at_end rfl]), next_at_end rfl,
      Text.byteLength_append, h]

/-- The questions up to the end or the first error are no more than the characters, and
they decide what the tokens are. -/
theorem exists_answers_of_tokens (l : Lexer) :
    ∃ ts : List Token, ts.length ≤ l.rest.length ∧ l.answers ts.length = ts.map .ok ∧
      ((∃ t, l.answer ts.length = .ok t ∧ t.kind = .finish ∧
          l.tokens = .ok (ts.filter (·.kind ≠ .blank))) ∨
        ∃ e, l.answer ts.length = .error e ∧ l.tokens = .error e) := by
  fun_induction Lexer.tokens l with
  | case1 l e l' hnext =>
    have hanswer : l.answer 0 = .error e := by rw [answer, after, hnext]
    exact ⟨[], Nat.zero_le _, rfl, .inr ⟨e, hanswer, rfl⟩⟩
  | case2 l t l' hnext hkind =>
    have hanswer : l.answer 0 = .ok t := by rw [answer, after, hnext]
    exact ⟨[], Nat.zero_le _, rfl, .inl ⟨t, hanswer, hkind, rfl⟩⟩
  | case3 l t l' hnext hkind ih =>
    obtain ⟨ts, hlength, hanswers, hlast⟩ := ih
    have hshorter := next_shorter hnext hkind
    have hanswer (n : Nat) : l.answer (n + 1) = l'.answer n := by
      rw [answer, after, hnext, answer]
    refine ⟨t :: ts, ?_, ?_, ?_⟩
    · rw [List.length_cons]
      omega
    · rw [List.length_cons, answers_succ, hnext, hanswers, List.map_cons]
    · rw [List.length_cons, hanswer]
      rcases hlast with ⟨t', ht', hkind', htokens⟩ | ⟨e, he, htokens⟩
      · refine .inl ⟨t', ht', hkind', ?_⟩
        rw [htokens, List.filter_cons]
        by_cases hblank : t.kind = .blank <;> simp [hblank]
      · exact .inr ⟨e, he, by rw [htokens]; rfl⟩

/-- **The tokens tile the text.** As long as a lexer gives tokens, they are the text it has
passed, one behind the other. What it says next is a lexeme that stands there and goes as
far as it can, or the end, for good, or it is an error: a character that starts no lexeme,
for good, or a quote without partner, and then the end for good. So the text has its tokens,
or its first error, after no more questions than it has characters. -/
theorem tokens_tile_text (source : String) :
    (∀ ts : List Token, (ofString source).answers ts.length = ts.map .ok →
      ∃ ahead, source.toList = covered ts ++ ahead ∧
        Tells (covered ts) ahead (fun n => (ofString source).answer (ts.length + 1 + n))
          ((ofString source).answer ts.length)) ∧
    ∃ ts : List Token, ts.length ≤ source.toList.length ∧
      (ofString source).answers ts.length = ts.map .ok ∧
      ((∃ t, (ofString source).answer ts.length = .ok t ∧ t.kind = .finish ∧
          tokenize source = .ok (ts.filter (·.kind ≠ .blank))) ∨
        ∃ e, (ofString source).answer ts.length = .error e ∧ tokenize source = .error e) := by
  refine ⟨fun ts hts => ?_, (ofString source).exists_answers_of_tokens⟩
  obtain ⟨hrest, hposition⟩ := after_of_answers hts
  refine ⟨_, hrest, ?_⟩
  have htells := tells (hposition.trans (Nat.zero_add _))
  simp only [← answer_add] at htells
  simp only [Nat.add_right_comm _ 1, Nat.add_assoc]
  exact htells

/-- `3d6 'x` gives four tokens, then the quote, and then the end however often it is asked. -/
theorem tokens_tile_unterminated :
    let ts : List Token := [⟨.integer, "3", 0⟩, ⟨.word, "d", 1⟩, ⟨.integer, "6", 2⟩, ⟨.blank, " ", 3⟩]
    let l := ofString "3d6 'x"
    l.answers ts.length = ts.map .ok ∧
      l.answer ts.length = .error (.unterminatedText 4) ∧
      ∀ n, l.answer (ts.length + 1 + n) = .ok ⟨.finish, "", 6⟩ := by
  intro ts l
  have hanswers : l.answers ts.length = ts.map .ok := by decide
  have herror : l.answer ts.length = .error (.unterminatedText 4) := by decide
  obtain ⟨ahead, happend, htells⟩ := (tokens_tile_text "3d6 'x").1 ts hanswers
  rw [herror] at htells
  obtain ⟨-, -, hlater⟩ := htells
  rw [← happend] at hlater
  exact ⟨hanswers, herror, hlater⟩

end Lexer

end Formulary
