import Formulary.Proofs.Lexeme

/-! Lexing a text piece by piece.

`Lexer.Passes` is a run of the lexer over some tokens; what the lexer finds in the rest of
the text does not depend on them (`tokens_of_passes`). Digits, words and quoted texts are
found whole, whatever stands behind them, as long as that does not go on with the digits or
the word. -/
namespace Formulary

/-! ### Runs of characters -/

/-- A run is found whole before a character of another class. -/
theorem Scan.run_append_of_stop {kind : TokenKind} {p : Char → Bool} {cs rest : List Char}
    (hcs : ∀ c ∈ cs, p c = true) (hrest : ∀ c ∈ rest.head?, p c = false) :
    Scan.run kind p (cs ++ rest) = .lexeme kind cs rest := by
  have hstop : rest.takeWhile p = [] ∧ rest.dropWhile p = rest := by
    cases rest with
    | nil => exact ⟨rfl, rfl⟩
    | cons c rest => simp [hrest c rfl]
  rw [Scan.run, List.takeWhile_append_of_pos hcs, List.dropWhile_append_of_pos hcs, hstop.1,
    hstop.2, List.append_nil]

/-- What is scanned as anything else does not begin with a blank. -/
theorem not_blank_of_scan {kind : TokenKind} {cs text rest : List Char}
    (h : scan cs = .lexeme kind text rest) (hkind : kind ≠ .blank) :
    ∀ c ∈ cs.head?, Text.isBlank c = false := by
  intro c hc
  obtain ⟨cs, rfl⟩ := List.head?_eq_some_iff.1 hc
  rw [← Bool.not_eq_true]
  intro hblank
  rw [scan, if_pos hblank] at h
  exact hkind (Scan.lexeme.inj h).1.symm

namespace Lexer

/-- The lexer finds the tokens, one after the other, and maybe white space between them. -/
inductive Passes : Lexer → List Token → Lexer → Prop where
  | nil {l : Lexer} : Passes l [] l
  | cons {l l' l'' : Lexer} {t : Token} {ts : List Token} (hnext : l.next = (.ok t, l'))
      (hfinish : t.kind ≠ .finish) (hblank : t.kind ≠ .blank) (h : Passes l' ts l'') :
      Passes l (t :: ts) l''
  | skip {l l' l'' : Lexer} {t : Token} {ts : List Token} (hnext : l.next = (.ok t, l'))
      (hblank : t.kind = .blank) (h : Passes l' ts l'') : Passes l ts l''

variable {l l' l'' : Lexer} {ts ts' : List Token}

theorem Passes.append (h : Passes l ts l') (h' : Passes l' ts' l'') :
    Passes l (ts ++ ts') l'' := by
  induction h with
  | nil => exact h'
  | cons hnext hfinish hblank _ ih => exact .cons hnext hfinish hblank (ih h')
  | skip hnext hblank _ ih => exact .skip hnext hblank (ih h')

theorem Passes.start {cs : List Char} (hl : l.rest = cs) : Passes l [] ⟨cs, l.position⟩ := by
  rw [← hl]
  exact .nil

theorem Passes.scan {kind : TokenKind} {cs text rest : List Char} {p : Nat}
    (h : Passes l ts ⟨cs, p⟩) (hscan : Formulary.scan cs = .lexeme kind text rest)
    (hfinish : kind ≠ .finish) (hblank : kind ≠ .blank) :
    ∃ q, Passes l (ts ++ [⟨kind, String.ofList text, p⟩]) ⟨rest, q⟩ :=
  ⟨_, h.append (.cons (by rw [next, hscan]) hfinish hblank .nil)⟩

/-- A character that is a token by itself. -/
theorem Passes.single {kind : TokenKind} {c : Char} {rest : List Char} {p : Nat}
    (h : Passes l ts ⟨c :: rest, p⟩) (hscan : Formulary.scan (c :: rest) = .lexeme kind [c] rest)
    (hfinish : kind ≠ .finish) (hblank : kind ≠ .blank) :
    ∃ q, Passes l (ts ++ [⟨kind, String.singleton c, p⟩]) ⟨rest, q⟩ :=
  h.scan hscan hfinish hblank

/-- White space before something else. -/
theorem Passes.blanks {gap cs : List Char} {p : Nat} (h : Passes l ts ⟨gap ++ cs, p⟩)
    (hgap : ∀ c ∈ gap, Text.isBlank c = true) (hcs : ∀ c ∈ cs.head?, Text.isBlank c = false) :
    ∃ q, Passes l ts ⟨cs, q⟩ := by
  cases gap with
  | nil => exact ⟨p, h⟩
  | cons c gap =>
    have hscan : Formulary.scan (c :: gap ++ cs) = .lexeme .blank (c :: gap) cs := by
      rw [List.cons_append, Formulary.scan, if_pos (hgap c List.mem_cons_self)]
      exact Scan.run_append_of_stop hgap hcs
    have hskip := h.append (.skip (by rw [next, hscan]) rfl .nil)
    rw [List.append_nil] at hskip
    exact ⟨_, hskip⟩

/-- A space before something else. -/
theorem Passes.space {cs : List Char} {p : Nat} (h : Passes l ts ⟨' ' :: cs, p⟩)
    (hcs : ∀ c ∈ cs.head?, Text.isBlank c = false) : ∃ q, Passes l ts ⟨cs, q⟩ :=
  h.blanks (List.forall_mem_singleton.2 rfl : ∀ c ∈ [' '], Text.isBlank c = true) hcs

theorem tokens_of_passes (h : Passes l ts l') :
    l.tokens = (do return ts ++ (← l'.tokens)) := by
  induction h with
  | nil => simp
  | @cons l l' l'' t ts hnext hfinish hblank _ ih =>
    rw [tokens]
    split
    · next hnext' => rw [hnext] at hnext'; cases hnext'
    · next t' l₁ hnext' =>
      obtain ⟨ht, rfl⟩ := Prod.mk.inj (hnext.symm.trans hnext')
      obtain rfl := Except.ok.inj ht
      simp [hfinish, hblank, ih]
  | @skip l l' l'' t ts hnext hblank _ ih =>
    rw [tokens]
    split
    · next hnext' => rw [hnext] at hnext'; cases hnext'
    · next t' l₁ hnext' =>
      obtain ⟨ht, rfl⟩ := Prod.mk.inj (hnext.symm.trans hnext')
      obtain rfl := Except.ok.inj ht
      simp [hblank, ih]

/-- At the end of the text there is nothing more to find. -/
theorem tokens_at_end (h : Passes l ts l') (hend : l'.rest = []) : l.tokens = .ok ts := by
  have hnil : l'.tokens = .ok [] := by
    obtain ⟨rest, position⟩ := l'
    obtain rfl : rest = [] := hend
    rw [tokens]
    rfl
  simp [tokens_of_passes h, hnil]

end Lexer

/-! ### Digits -/

/-- No digit follows. -/
def EndsDigits (rest : List Char) : Prop := ∀ c ∈ rest.head?, Text.isDigit c = false

theorem endsDigits_cons {c : Char} (h : Text.isDigit c = false) (cs : List Char) :
    EndsDigits (c :: cs) := by
  intro c' hc'
  obtain rfl := Option.some.inj hc'
  exact h

theorem scan_digit {c : Char} (h : Text.isDigit c = true) (cs : List Char) :
    scan (c :: cs) = .run .integer Text.isDigit (c :: cs) := by
  have hbounds : 48 ≤ c.toNat ∧ c.toNat ≤ 57 := by
    simpa [Text.isDigit, Char.le_def, UInt32.le_iff_toNat_le] using h
  have hc : c = Char.ofNat c.toNat := (Char.ofNat_toNat c).symm
  have hcases : c.toNat = 48 ∨ c.toNat = 49 ∨ c.toNat = 50 ∨ c.toNat = 51 ∨ c.toNat = 52 ∨
      c.toNat = 53 ∨ c.toNat = 54 ∨ c.toNat = 55 ∨ c.toNat = 56 ∨ c.toNat = 57 := by omega
  rcases hcases with hn | hn | hn | hn | hn | hn | hn | hn | hn | hn <;>
  · rw [hn] at hc
    subst hc
    rfl

theorem scan_digits {digits rest : List Char} (hne : digits ≠ [])
    (hdigits : ∀ c ∈ digits, Text.isDigit c = true) (hrest : EndsDigits rest) :
    scan (digits ++ rest) = .lexeme .integer digits rest := by
  have hscan : scan (digits ++ rest) = .run .integer Text.isDigit (digits ++ rest) := by
    cases digits with
    | nil => exact absurd rfl hne
    | cons c cs => exact scan_digit (hdigits c List.mem_cons_self) _
  rw [hscan, Scan.run_append_of_stop hdigits hrest]

theorem isDigit_of_mem_repr {n : Nat} {c : Char} (h : c ∈ n.repr.toList) :
    Text.isDigit c = true := by
  rw [Nat.toList_repr] at h
  exact Nat.isDigit_of_mem_toDigits (by decide) (by decide) h

theorem toList_repr_ne_nil (n : Nat) : n.repr.toList ≠ [] := by
  rw [Nat.toList_repr]
  exact Nat.toDigits_ne_nil

/-- The digits of a number write it. -/
theorem ofDigits_repr (n : Nat) : Text.ofDigits n.repr.toList = n := by
  rw [Nat.toList_repr]
  exact Nat.ofDigitChars_eq_foldl.symm.trans Nat.ofDigitChars_ten_toDigits

theorem scan_repr (n : Nat) {rest : List Char} (hrest : EndsDigits rest) :
    scan (n.repr.toList ++ rest) = .lexeme .integer n.repr.toList rest :=
  scan_digits (toList_repr_ne_nil n) (fun _ hc => isDigit_of_mem_repr hc) hrest

theorem Lexer.Passes.digits {l : Lexer} {ts : List Token} {n p : Nat} {rest : List Char}
    (h : l.Passes ts ⟨n.repr.toList ++ rest, p⟩) (hrest : EndsDigits rest) :
    ∃ q, l.Passes (ts ++ [⟨.integer, n.repr, p⟩]) ⟨rest, q⟩ := by
  have h := h.scan (scan_repr n hrest) (by decide) (by decide)
  rwa [String.ofList_toList] at h

/-! ### Words -/

/-- Nothing follows that a word could go on with. -/
def EndsWord (rest : List Char) : Prop := ∀ c ∈ rest.head?, continuesWord c = false

theorem endsWord_nil : EndsWord [] := fun _ hc => nomatch hc

theorem endsWord_cons {c : Char} (h : continuesWord c = false) (cs : List Char) :
    EndsWord (c :: cs) := by
  intro c' hc'
  obtain rfl := Option.some.inj hc'
  exact h

theorem EndsWord.endsDigits {rest : List Char} (h : EndsWord rest) : EndsDigits rest := by
  intro c hc
  have hword := h c hc
  rw [continuesWord, Bool.or_eq_false_iff] at hword
  exact hword.2

/-- Only what begins as a word is scanned as one. -/
theorem scan_word {c : Char} {cs text rest : List Char}
    (h : scan (c :: cs) = .lexeme .word text rest) (xs : List Char) :
    startsWord c = true ∧ scan (c :: xs) = .word (c :: xs) := by
  obtain ⟨-, hs⟩ | ⟨kind, hk, hs⟩ | ⟨-, hs⟩ | ⟨-, hs⟩ | ⟨-, hs⟩ | ⟨hc, hs⟩ | ⟨-, hs⟩ | hs :=
    scan_cases c <;> rw [hs] at h
  · cases (Scan.lexeme.inj h).1
  · obtain ⟨rfl, -⟩ := Scan.lexeme.inj h
    rcases punctuation?_cases hk with h | h <;> cases h
  · cases Scan.kind_of_withEqual h
  · split at h
    · cases Scan.kind_of_withEqual h
    · cases h
  · cases (Scan.content_of_quotedText h).1
  · exact ⟨hc, hs xs⟩
  · cases (Scan.lexeme.inj h).1
  · cases h

/-- Whatever begins as a word is scanned as one. -/
theorem scan_of_startsWord {c : Char} (h : startsWord c = true) (cs : List Char) :
    scan (c :: cs) = .word (c :: cs) := by
  have hrange : (97 ≤ c.toNat ∧ c.toNat ≤ 122) ∨ (65 ≤ c.toNat ∧ c.toNat ≤ 90) ∨ c = '_' := by
    simpa [startsWord, Char.le_def, UInt32.le_iff_toNat_le, or_assoc] using h
  have hblank : Text.isBlank c = false := by
    rcases hrange with h | h | rfl
    · simp [Text.isBlank, Text.blankRanges]; omega
    · simp [Text.isBlank, Text.blankRanges]; omega
    · rfl
  have hpunctuation : punctuation? c = none := by
    unfold punctuation?
    split <;> first | rfl | cases h
  have hne : ∀ x : Char, startsWord x = false → c ≠ x := by
    rintro x hx rfl
    rw [hx] at h
    cases h
  rw [scan, hblank, hpunctuation, h]
  simp [hne '<' rfl, hne '>' rfl, hne '!' rfl, hne '\'' rfl]

theorem Scan.run_eq_whole_iff {kind : TokenKind} {p : Char → Bool} {cs : List Char} :
    Scan.run kind p cs = .lexeme kind cs [] ↔ ∀ x ∈ cs, p x = true := by
  rw [run, Scan.lexeme.injEq, List.takeWhile_eq_self_iff, List.dropWhile_eq_nil_iff]
  simp

theorem startsWord_of_isDigit {c : Char} (h : Text.isDigit c = true) : startsWord c = false := by
  have hrange : 48 ≤ c.toNat ∧ c.toNat ≤ 57 := by
    simpa [Text.isDigit, Char.le_def, UInt32.le_iff_toNat_le] using h
  have hne : c ≠ '_' := by
    rintro rfl
    cases h
  simp [startsWord, Char.le_def, UInt32.le_iff_toNat_le, hne]
  omega

/-- The words are found whole; of a `d` before a digit only the `d` is. -/
theorem Scan.word_eq_whole_iff {c : Char} {cs : List Char} (hc : startsWord c = true) :
    Scan.word (c :: cs) = .lexeme .word (c :: cs) [] ↔
      (∀ x ∈ cs, continuesWord x = true) ∧
        ∀ x xs, c :: cs = 'd' :: x :: xs → Text.isDigit x = false := by
  have hrun : Scan.run .word continuesWord (c :: cs) = .lexeme .word (c :: cs) [] ↔
      ∀ x ∈ cs, continuesWord x = true := by
    rw [run_eq_whole_iff, List.forall_mem_cons]
    simp [continuesWord, hc]
  by_cases hd : c = 'd'
  · subst hd
    cases cs with
    | nil => simp [word]
    | cons x xs =>
      by_cases hx : startsWord x = true
      · have hdigit : Text.isDigit x = false := by
          rw [← Bool.not_eq_true]
          intro hdigit
          rw [startsWord_of_isDigit hdigit] at hx
          cases hx
        rw [word, if_pos (by simpa using hx), hrun]
        simp [hdigit]
      · rw [word, if_neg (by simpa using hx)]
        constructor
        · intro h
          cases (Scan.lexeme.inj h).2.1
        · rintro ⟨hcs, hd⟩
          have hcontinues := hcs x List.mem_cons_self
          simp [continuesWord, hx, hd x xs rfl] at hcontinues
  · rw [word_of_ne hd, hrun]
    simp [hd]

/-- A word is found whole before anything that it could not go on with. -/
theorem scan_word_append {word rest : List Char} (h : scan word = .lexeme .word word [])
    (hrest : EndsWord rest) : scan (word ++ rest) = .lexeme .word word rest := by
  cases word with
  | nil => cases (Scan.lexeme.inj h).1
  | cons c cs =>
    have hrun (hword : Scan.run .word continuesWord (c :: cs) = .lexeme .word (c :: cs) []) :
        Scan.run .word continuesWord (c :: cs ++ rest) = .lexeme .word (c :: cs) rest := by
      obtain ⟨-, htake, -⟩ := Scan.lexeme.inj hword
      refine Scan.run_append_of_stop (fun x hx => ?_) hrest
      rw [← htake] at hx
      exact List.mem_takeWhile_imp hx
    have hwhole : Scan.word (c :: cs) = .lexeme .word (c :: cs) [] := (scan_word h cs).2.symm.trans h
    rw [List.cons_append, (scan_word h _).2]
    by_cases hd : c = 'd'
    · subst hd
      cases cs with
      | nil =>
        -- A `d` alone stays alone, for no letter follows.
        have hnot : rest.head?.any startsWord = false := by
          cases rest with
          | nil => rfl
          | cons x xs =>
            have hx := hrest x rfl
            rw [continuesWord, Bool.or_eq_false_iff] at hx
            exact hx.1
        rw [List.nil_append, Scan.word, if_neg (by simp [hnot])]
      | cons x xs =>
        by_cases hs : (x :: xs).head?.any startsWord = true
        · have hs' : (x :: xs ++ rest).head?.any startsWord = true := hs
          rw [Scan.word, if_pos hs] at hwhole
          rw [Scan.word, if_pos hs']
          exact hrun hwhole
        · rw [Scan.word, if_neg hs] at hwhole
          cases (Scan.lexeme.inj hwhole).2.1
    · rw [Scan.word_of_ne hd] at hwhole ⊢
      exact hrun hwhole

/-! ### Quoted texts -/

theorem scan_quoted {content : List Char} (h : '\'' ∉ content) (rest : List Char) :
    scan ('\'' :: (content ++ '\'' :: rest)) =
      .lexeme .text ('\'' :: (content ++ ['\''])) rest := by
  have hplain : ∀ c ∈ content, (fun x => decide (x ≠ '\'')) c = true := by
    intro c hc
    simp only [decide_eq_true_eq]
    rintro rfl
    exact h hc
  show Scan.quotedText (content ++ '\'' :: rest) = _
  rw [Scan.quotedText, List.dropWhile_append_of_pos hplain, List.takeWhile_append_of_pos hplain]
  simp

theorem Lexer.Passes.quoted {l : Lexer} {ts : List Token} {s : String} {p : Nat}
    {rest : List Char} (h : l.Passes ts ⟨'\'' :: (s.toList ++ '\'' :: rest), p⟩)
    (hs : '\'' ∉ s.toList) :
    ∃ q, l.Passes (ts ++ [⟨.text, "'" ++ s ++ "'", p⟩]) ⟨rest, q⟩ := by
  have htext : String.ofList ('\'' :: (s.toList ++ ['\''])) = "'" ++ s ++ "'" := by
    rw [← String.toList_inj]
    simp
  rw [← htext]
  exact h.scan (scan_quoted hs rest) (by decide) (by decide)

end Formulary
