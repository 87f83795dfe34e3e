import Formulary.Expr.Parser
import Formulary.Proofs.Boundary
import Formulary.Proofs.Tiling
import Mathlib.Data.List.Induction

/-! Texts by slices.

A slice of a text has two positions, counted in bytes, and there is none if one of them is
inside a character or outside the text. The lexer hands on what is left of a text and needs
no positions. Here it keeps only where it is: what is ahead of it is sliced off the text,
each token is sliced off as well, and it has to go on from where it was. In steps like these
a computation can come to nothing (`Steps`). On no text it does (`tokens_eq`).

Of a text token the first byte and the last are cut off. That is a slice if they are
characters by themselves (`Text.Delimited`), as the quotes of a token are. -/
namespace Formulary

/-! ### Texts between delimiters -/

/-- Two bytes or more, the first and the last of them characters by themselves. -/
structure Text.Delimited (text : String) : Prop where
  two_le : 2 ≤ byteLength text.toList
  first : ∀ c ∈ text.toList.head?, c.utf8Size = 1
  last : ∀ c ∈ text.toList.getLast?, c.utf8Size = 1

theorem Text.delimited_iff (text : String) :
    Delimited text ↔ 2 ≤ byteLength text.toList ∧
      text.toList.head?.all (·.utf8Size = 1) ∧ text.toList.getLast?.all (·.utf8Size = 1) := by
  simp only [Option.all_eq_true, decide_eq_true_eq]
  exact ⟨fun h => ⟨h.two_le, h.first, h.last⟩, fun h => ⟨h.1, h.2.1, h.2.2⟩⟩

instance (text : String) : Decidable (Text.Delimited text) :=
  decidable_of_iff' _ (Text.delimited_iff text)

theorem Text.Delimited.exists_content {text : String} (h : Delimited text) :
    ∃ first content last, text.toList = first :: (content ++ [last]) ∧ first.utf8Size = 1 ∧
      last.utf8Size = 1 := by
  obtain ⟨htwo, hfirst, hlast⟩ := h
  cases hcs : text.toList with
  | nil => simp [hcs, byteLength] at htwo
  | cons first rest =>
    rw [hcs] at htwo hfirst hlast
    have hone : first.utf8Size = 1 := hfirst first rfl
    cases rest using List.reverseRecOn with
    | nil => simp [byteLength, hone] at htwo
    | append_singleton content last =>
      refine ⟨first, content, last, rfl, hone, hlast last ?_⟩
      exact List.getLast?_concat (l := first :: content)

/-- The content of a delimited text is cut out between two bytes. -/
theorem Text.Delimited.slice?_eq {text : String} (h : Delimited text) :
    slice? text 1 (byteLength text.toList - 1) = some (unquote text) := by
  obtain ⟨first, content, last, hcs, hfirst, hlast⟩ := h.exists_content
  have happend : text.toList = [first] ++ (content ++ [last]) := hcs
  have hslice := slice?_of_append happend
  have hstop : byteLength text.toList - 1 = byteLength [first] + byteLength content := by
    rw [hcs]
    simp [byteLength, hfirst, hlast]
    omega
  have hcontent : (text.toList.drop 1).dropLast = content := by simp [hcs]
  rw [hstop, unquote, hcontent, ← hslice]
  simp [byteLength, hfirst]

/-- All text tokens are delimited. -/
def TextsDelimited (tokens : List Token) : Prop :=
  ∀ t ∈ tokens, t.kind = .text → Text.Delimited t.text

instance (tokens : List Token) : Decidable (TextsDelimited tokens) :=
  inferInstanceAs (Decidable (∀ t ∈ tokens, t.kind = .text → Text.Delimited t.text))

theorem textsDelimited_of_tokenize {source : String} {tokens : List Token}
    (h : tokenize source = .ok tokens) : TextsDelimited tokens := by
  intro t ht hkind
  obtain ⟨content, hcs⟩ := (lexed_of_tokenize h t ht).text_eq_quoted hkind
  have hquote : Char.utf8Size '\'' = 1 := rfl
  refine ⟨?_, fun c hc => ?_, fun c hc => ?_⟩
  · rw [hcs]
    simp [Text.byteLength, hquote]
    omega
  · rw [hcs] at hc
    obtain rfl := Option.some.inj hc
    exact hquote
  · rw [hcs, ← List.cons_append, List.getLast?_concat] at hc
    obtain rfl := Option.some.inj hc
    exact hquote

namespace Checked

/-! ### Steps -/

/-- Steps that come to a result or an error, or to nothing if one of them goes wrong. -/
abbrev Steps (ε : Type) := ExceptT ε Option

section
variable {ε ε' α β : Type} {x : Steps ε α} {r : Except ε α}

theorem run_bind_eq {f : α → Steps ε β} {g : α → Except ε β} (hx : x.run = some r)
    (hf : ∀ a, (f a).run = some (g a)) : (x >>= f).run = some (r >>= g) := by
  rw [ExceptT.run_bind, hx]
  cases r with
  | error e => rfl
  | ok a => exact hf a

theorem run_map_eq (f : α → β) (hx : x.run = some r) :
    (x >>= fun a => pure (f a)).run = some (f <$> r) := by
  have hmap : f <$> r = r >>= fun a => .ok (f a) := by cases r <;> rfl
  rw [hmap]
  exact run_bind_eq hx fun _ => rfl

theorem run_step {o : Option α} {a : α} (h : o = some a) (f : α → Steps ε β) :
    ((liftM o : Steps ε α) >>= f).run = (f a).run := by
  rw [h]
  rfl

theorem run_adapt (f : ε → ε') (hx : x.run = some r) :
    (x.adapt f).run = some (r.mapError f) :=
  congrArg (Option.map (Except.mapError f)) hx

theorem run_ofExcept (r : Except ε α) : (ofExcept r : Steps ε α).run = some r := by
  cases r <;> rfl

end

/-! ### Tokens -/

/-- The position to go on from, if less of the text is ahead of it. -/
def onward? (text : String) (start stop : Nat) :
    Option {next : Nat //
      Text.byteLength text.toList - next < Text.byteLength text.toList - start} :=
  if h : Text.byteLength text.toList - stop < Text.byteLength text.toList - start then
    some ⟨stop, h⟩
  else none

/-- The tokens of a text from a position on, without white space and the end. -/
def tokensFrom (text : String) (start : Nat) : Steps LexError (List Token) := do
  let ahead ← Text.slice? text start (Text.byteLength text.toList)
  let (answer, behind) := Lexer.next ⟨ahead.toList, start⟩
  let t ← ofExcept answer
  let lexeme ← Text.slice? text start behind.position
  if t.kind = .finish then return []
  let next ← onward? text start behind.position
  let following ← tokensFrom text next
  return if t.kind = .blank then following else ⟨t.kind, lexeme, start⟩ :: following
termination_by Text.byteLength text.toList - start
decreasing_by exact next.2

/-- A token of a lexer in a text is a slice of it, and the lexer goes on behind it. -/
theorem slice?_of_next {text : String} {before : List Char} {l l' : Lexer} {t : Token}
    (hposition : l.position = Text.byteLength before) (h : text.toList = before ++ l.rest)
    (hnext : l.next = (.ok t, l')) :
    Text.slice? text l.position l'.position = some t.text ∧ t = ⟨t.kind, t.text, l.position⟩ ∧
      l'.position = Text.byteLength (before ++ t.text.toList) ∧
      text.toList = before ++ t.text.toList ++ l'.rest := by
  obtain ⟨t', rest, hnext', hoffset, happend, -⟩ | ⟨c, hnext', -⟩ | ⟨after, -, -, hnext'⟩ :=
    l.next_cases <;> rw [hnext] at hnext'
  · obtain ⟨ht, rfl⟩ := Prod.mk.inj hnext'
    obtain rfl := Except.ok.inj ht
    rw [happend] at h
    refine ⟨?_, by rw [← hoffset], by rw [Text.byteLength_append, ← hposition], ?_⟩
    · have hslice := Text.slice?_of_append h
      rwa [String.ofList_toList, ← hposition] at hslice
    · rw [h, List.append_assoc]
  · cases hnext'
  · cases hnext'

/-- A lexer in a text finds its tokens by slices. -/
theorem tokensFrom_eq {text : String} (before : List Char) {l : Lexer}
    (hposition : l.position = Text.byteLength before) (h : text.toList = before ++ l.rest) :
    (tokensFrom text l.position).run = some l.tokens := by
  have hahead {l : Lexer} {before : List Char} (hposition : l.position = Text.byteLength before)
      (h : text.toList = before ++ l.rest) :
      Text.slice? text l.position (Text.byteLength text.toList) = some (String.ofList l.rest) := by
    rw [hposition, h, Text.byteLength_append]
    exact Text.slice?_of_append (by rw [h, List.append_nil])
  have hasked (l : Lexer) : Lexer.next ⟨(String.ofList l.rest).toList, l.position⟩ = l.next := by
    rw [String.toList_ofList]
  fun_induction Lexer.tokens l generalizing before with
  | case1 l e l' hnext =>
    rw [tokensFrom, run_step (hahead hposition h), hasked, hnext]
    rfl
  | case2 l t l' hnext hkind =>
    obtain ⟨hslice, -⟩ := slice?_of_next hposition h hnext
    rw [tokensFrom, run_step (hahead hposition h), hasked, hnext]
    show ExceptT.run (liftM (Text.slice? text l.position l'.position) >>= _) = _
    rw [run_step hslice, if_pos hkind]
    rfl
  | case3 l t l' hnext hkind ih =>
    obtain ⟨hslice, ht, hposition', h'⟩ := slice?_of_next hposition h hnext
    rw [tokensFrom, run_step (hahead hposition h), hasked, hnext]
    show ExceptT.run (liftM (Text.slice? text l.position l'.position) >>= _) = _
    have hpositive : Text.byteLength t.text.toList ≠ 0 :=
      mt Text.byteLength_eq_zero (scan_ne_nil (Lexer.lexed_of_next hnext) hkind)
    have hless : Text.byteLength text.toList - l'.position <
        Text.byteLength text.toList - l.position := by
      rw [h', hposition', hposition]
      simp only [Text.byteLength_append]
      omega
    rw [run_step hslice, if_neg hkind, run_step (dif_pos hless), run_map_eq _ (ih _ hposition' h'),
      ← ht]
    cases l'.tokens <;> rfl

theorem tokens_eq (text : String) : (tokensFrom text 0).run = some (tokenize text) :=
  tokensFrom_eq [] (l := Lexer.ofString text) rfl rfl

end Checked

end Formulary
