import Formulary.Text.Blank
import Formulary.Text.Byte
import Formulary.Text.Decimal
import Formulary.Token

/-! From text to tokens.

`scan` finds the lexeme at the head of a text; `Lexer.next` turns it into a token and
moves on. A lexer can be asked again after an error: an unexpected character leaves
it where it is, an unterminated text leaves it at the end. `tokenize` runs a lexer
until the end and keeps what is not white space; it ends on every text because every
token but the last covers a character (`Lexer.next_shorter`). -/
namespace Formulary

inductive LexError where
  /-- No token starts with this character. -/
  | unexpectedChar (c : Char) (position : Nat)
  /-- The quote at `position` has no partner. -/
  | unterminatedText (position : Nat)
  deriving DecidableEq, Repr

def LexError.message : LexError → String
  | .unexpectedChar c position => s!"unexpected character '{c}' at position {position}"
  | .unterminatedText position => s!"unterminated string starting at position {position}"

/-! ### Character classes -/

/-- A letter of ASCII or an underscore. -/
def startsWord (c : Char) : Bool :=
  ('a' ≤ c && c ≤ 'z') || ('A' ≤ c && c ≤ 'Z') || c = '_'

def continuesWord (c : Char) : Bool := startsWord c || Text.isDigit c

/-- The characters that are tokens by themselves. -/
def punctuation? : Char → Option TokenKind
  | '(' => some .openParen
  | ')' => some .closeParen
  | '[' => some .openBracket
  | ']' => some .closeBracket
  | ',' => some .comma
  | '+' | '-' | '*' | '/' | '%' | '^' | '=' | '.' => some .operator
  | _ => none

/-! ### Lexemes -/

/-- What stands at the head of a text. -/
inductive Scan where
  /-- A lexeme, and the text after it. -/
  | lexeme (kind : TokenKind) (text rest : List Char)
  | unexpected (c : Char)
  | unterminated
  deriving DecidableEq, Repr

/-- The longest run of characters of a class, as a lexeme. -/
def Scan.run (kind : TokenKind) (p : Char → Bool) (cs : List Char) : Scan :=
  .lexeme kind (cs.takeWhile p) (cs.dropWhile p)

/-- An operator of one character, or of two if `=` follows. -/
def Scan.withEqual (c : Char) : List Char → Scan
  | '=' :: rest => .lexeme .operator [c, '='] rest
  | rest => .lexeme .operator [c] rest

/-- A text up to the next quote. -/
def Scan.quotedText (cs : List Char) : Scan :=
  match cs.dropWhile (· ≠ '\'') with
  | [] => .unterminated
  | quote :: rest => .lexeme .text ('\'' :: cs.takeWhile (· ≠ '\'') ++ [quote]) rest

/-- A word. A `d` with neither letter nor underscore after it stands alone, so that
`3d6` is three tokens. -/
def Scan.word : List Char → Scan
  | 'd' :: rest =>
    if rest.head?.any startsWord then run .word continuesWord ('d' :: rest)
    else .lexeme .word ['d'] rest
  | cs => run .word continuesWord cs

def scan : List Char → Scan
  | [] => .lexeme .finish [] []
  | c :: rest =>
    if Text.isBlank c then .run .blank Text.isBlank (c :: rest)
    else match punctuation? c with
      | some kind => .lexeme kind [c] rest
      | none =>
        if c = '<' || c = '>' then .withEqual c rest
        else if c = '!' then
          if rest.head? = some '=' then .withEqual c rest else .unexpected c
        else if c = '\'' then .quotedText rest
        else if startsWord c then .word (c :: rest)
        else if Text.isDigit c then .run .integer Text.isDigit (c :: rest)
        else .unexpected c

/-! ### Lexemes tile the text -/

theorem Scan.run_append {kind kind' : TokenKind} {p : Char → Bool} {cs text rest : List Char}
    (h : run kind p cs = .lexeme kind' text rest) : text ++ rest = cs := by
  simp only [run, lexeme.injEq] at h
  rw [← h.2.1, ← h.2.2, List.takeWhile_append_dropWhile]

theorem Scan.withEqual_append {kind : TokenKind} {c : Char} {cs text rest : List Char}
    (h : withEqual c cs = .lexeme kind text rest) : text ++ rest = c :: cs := by
  unfold withEqual at h
  split at h <;>
  · obtain ⟨-, rfl, rfl⟩ := Scan.lexeme.inj h
    rfl

theorem Scan.quotedText_append {kind : TokenKind} {cs text rest : List Char}
    (h : quotedText cs = .lexeme kind text rest) : text ++ rest = '\'' :: cs := by
  unfold quotedText at h
  split at h
  · cases h
  · next quote after heq =>
    simp only [lexeme.injEq] at h
    rw [← h.2.1, ← h.2.2]
    have := List.takeWhile_append_dropWhile (p := (· ≠ '\'')) (l := cs)
    rw [heq] at this
    simpa using this

theorem Scan.word_append {kind : TokenKind} {cs text rest : List Char}
    (h : word cs = .lexeme kind text rest) : text ++ rest = cs := by
  unfold word at h
  split at h
  · split at h
    · exact run_append h
    · obtain ⟨-, rfl, rfl⟩ := Scan.lexeme.inj h
      rfl
  · exact run_append h

/-- A lexeme and the text after it make up the text scanned. -/
theorem scan_append {kind : TokenKind} {cs text rest : List Char}
    (h : scan cs = .lexeme kind text rest) : text ++ rest = cs := by
  unfold scan at h
  split at h
  · obtain ⟨-, rfl, rfl⟩ := Scan.lexeme.inj h
    rfl
  · split at h
    · exact Scan.run_append h
    · split at h
      · obtain ⟨-, rfl, rfl⟩ := Scan.lexeme.inj h
        rfl
      · split at h
        · exact Scan.withEqual_append h
        · split at h
          · split at h
            · exact Scan.withEqual_append h
            · cases h
          · split at h
            · next hc => exact hc ▸ Scan.quotedText_append h
            · split at h
              · exact Scan.word_append h
              · split at h
                · exact Scan.run_append h
                · cases h

theorem Scan.run_ne_nil {kind kind' : TokenKind} {p : Char → Bool} {c : Char}
    {cs text rest : List Char} (hc : p c = true)
    (h : run kind p (c :: cs) = .lexeme kind' text rest) : text ≠ [] := by
  obtain ⟨-, rfl, -⟩ := Scan.lexeme.inj h
  simp [hc]

theorem Scan.word_ne_nil {kind : TokenKind} {c : Char} {cs text rest : List Char}
    (hc : startsWord c = true) (h : word (c :: cs) = .lexeme kind text rest) : text ≠ [] := by
  have hw : continuesWord c = true := by simp [continuesWord, hc]
  unfold word at h
  split at h
  · next heq =>
    obtain ⟨rfl, rfl⟩ := List.cons.inj heq
    split at h
    · exact run_ne_nil hw h
    · obtain ⟨-, rfl, -⟩ := Scan.lexeme.inj h
      exact List.cons_ne_nil _ _
  · exact run_ne_nil hw h

/-- Every lexeme but the last covers a character. -/
theorem scan_ne_nil {kind : TokenKind} {cs text rest : List Char}
    (h : scan cs = .lexeme kind text rest) (hk : kind ≠ .finish) : text ≠ [] := by
  unfold scan at h
  split at h
  · exact absurd (Scan.lexeme.inj h).1.symm hk
  · split at h
    · next hc => exact Scan.run_ne_nil hc h
    · split at h
      · obtain ⟨-, rfl, -⟩ := Scan.lexeme.inj h
        exact List.cons_ne_nil _ _
      · split at h
        · unfold Scan.withEqual at h
          split at h <;> (obtain ⟨-, rfl, -⟩ := Scan.lexeme.inj h; exact List.cons_ne_nil _ _)
        · split at h
          · split at h
            · unfold Scan.withEqual at h
              split at h <;> (obtain ⟨-, rfl, -⟩ := Scan.lexeme.inj h; exact List.cons_ne_nil _ _)
            · cases h
          · split at h
            · unfold Scan.quotedText at h
              split at h
              · cases h
              · obtain ⟨-, rfl, -⟩ := Scan.lexeme.inj h
                exact List.cons_ne_nil _ _
            · split at h
              · next hc => exact Scan.word_ne_nil hc h
              · split at h
                · next hc => exact Scan.run_ne_nil hc h
                · cases h

/-! ### The lexer -/

/-- A place in a text: what is left of it, and the bytes before. -/
structure Lexer where
  rest : List Char
  position : Nat
  deriving DecidableEq, Repr

namespace Lexer

def ofString (source : String) : Lexer :=
  ⟨source.toList, 0⟩

/-- The next token, and the lexer after it. -/
def next (l : Lexer) : Except LexError Token × Lexer :=
  match scan l.rest with
  | .lexeme kind text rest =>
    (.ok ⟨kind, String.ofList text, l.position⟩, ⟨rest, l.position + Text.byteLength text⟩)
  | .unexpected c => (.error (.unexpectedChar c l.position), l)
  | .unterminated =>
    (.error (.unterminatedText l.position), ⟨[], l.position + Text.byteLength l.rest⟩)

/-- Every token but the last leaves a shorter text. -/
theorem next_shorter {l l' : Lexer} {t : Token} (h : l.next = (.ok t, l'))
    (ht : t.kind ≠ .finish) : l'.rest.length < l.rest.length := by
  unfold next at h
  split at h
  · next kind text rest heq =>
    obtain ⟨htok, rfl⟩ := Prod.mk.inj h
    obtain rfl := Except.ok.inj htok
    have hne := scan_ne_nil heq ht
    rw [← scan_append heq, List.length_append]
    have := List.length_pos_iff.2 hne
    simp only
    omega
  · cases h
  · cases h

/-- The tokens up to the end, without white space and the end itself. -/
def tokens (l : Lexer) : Except LexError (List Token) :=
  match _h : l.next with
  | (.error e, _) => .error e
  | (.ok t, l') =>
    if _ht : t.kind = .finish then .ok []
    else do
      let following ← l'.tokens
      pure (if t.kind = .blank then following else t :: following)
termination_by l.rest.length
decreasing_by exact next_shorter ‹_› ‹_›

end Lexer

/-- The tokens of a text, or its first lexical error. -/
def tokenize (source : String) : Except LexError (List Token) :=
  (Lexer.ofString source).tokens

end Formulary
