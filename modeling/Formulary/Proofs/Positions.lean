import Formulary.Proofs.Span
import Mathlib.Data.Nat.PSub

/-! Spans by positions.

The scans of a span go along its tokens and need no positions. Here they are made as over an
array: tokens are indexed, parts are slices between two positions, and the count of open
brackets goes down by one at each closing bracket. A scan gives nothing as soon as an index or
a slice leaves the span, the count falls below zero, or the span ends before the bracket that
is looked for.

On a nested span no scan gives nothing, because the count is the number of brackets open: the
position to cut at is that of `splitPoint` (`splitPosition?_eq`), the parts are those of
`splitCommas` (`splitCommas?_eq`), and each opening bracket has a partner with nested brackets
in between (`exists_closing?`). -/
namespace Formulary

namespace Checked

variable {t opening closing : Token} {before behind inner rest span stack : List Token}

/-! ### Slices -/

/-- The tokens from one position up to another. -/
def slice? (span : List Token) (start stop : Nat) : Option (List Token) :=
  if start ≤ stop ∧ stop ≤ span.length then some (span.extract start stop) else none

theorem slice?_append (before middle behind : List Token) :
    slice? (before ++ (middle ++ behind)) before.length (before.length + middle.length) =
      some middle := by
  rw [slice?, if_pos (by simp only [List.length_append]; omega), List.extract_eq_take_drop,
    List.drop_left, Nat.add_sub_cancel_left, List.take_left]

theorem slice?_to_end (before behind : List Token) :
    slice? (before ++ behind) before.length (before ++ behind).length = some behind := by
  have h := slice?_append before behind []
  rwa [List.append_nil, ← List.length_append] at h

/-- The slice from a position up to the last token. -/
theorem slice?_to_last (before : List Token) (t : Token) (rest : List Token) :
    slice? (before ++ t :: rest) before.length (before.length + rest.length) =
      some (t :: rest).dropLast := by
  have h := slice?_append before (t :: rest).dropLast [(t :: rest).getLast (List.cons_ne_nil t rest)]
  rwa [List.dropLast_concat_getLast, List.length_dropLast, List.length_cons,
    Nat.add_sub_cancel] at h

/-! ### The operator to cut at -/

/-- Whether an operand can end before a position. -/
def operandBefore? (span : List Token) (position : Nat) : Option Bool :=
  if position = 0 then some false
  else do
    let before ← span[(← position.psub 1)]?
    return before.endsOperand

/-- Whether an operator is the one to cut at, if `best` is the position and the strength of
the one found so far. -/
def isBetter (best : Option (Nat × Nat)) (t : Token) : Bool :=
  best.all fun found =>
    t.strength < found.2 || (t.strength = found.2 && !groupsRight t.text)

/-- The scan for the operator to cut at, from a position on. -/
def splitFrom? (span : List Token) :
    Nat → Nat → Option (Nat × Nat) → List Token → Option (Option Nat)
  | _, _, best, [] => some (best.map Prod.fst)
  | position, depth, best, t :: rest =>
    if t.opens then splitFrom? span (position + 1) (depth + 1) best rest
    else if t.closes then do
      let depth ← depth.ppred
      splitFrom? span (position + 1) depth best rest
    else if depth = 0 && t.isOperator then do
      let binary ← operandBefore? span position
      if binary && isBetter best t then
        splitFrom? span (position + 1) depth (some (position, t.strength)) rest
      else splitFrom? span (position + 1) depth best rest
    else splitFrom? span (position + 1) depth best rest

/-- The position of the operator to cut a span at, if there is one. -/
def splitPosition? (span : List Token) : Option (Option Nat) :=
  splitFrom? span 0 0 none span

theorem operandBefore?_eq (before rest : List Token) :
    operandBefore? (before ++ rest) before.length = some (before.getLast?.any Token.endsOperand) := by
  cases before using List.reverseRecOn with
  | nil => rfl
  | append_singleton front t => simp [operandBefore?, Nat.psub, Nat.ppred]

/-- The looser of the operator found so far and a next one. -/
def better (best : Option (Nat × Token)) (c : Nat × Token) : Option (Nat × Token) :=
  some (best.elim c (looser · c))

/-- What a scan keeps of an operator. -/
def found (c : Nat × Token) : Nat × Nat := (c.1, c.2.strength)

theorem isBetter_found (best : Option (Nat × Token)) (c : Nat × Token) :
    (if isBetter (best.map found) c.2 then some (found c) else best.map found) =
      (better best c).map found := by
  cases best with
  | none => rfl
  | some b =>
    simp only [isBetter, better, looser, Option.map_some, Option.all_some, Option.elim_some, found]
    by_cases hlt : c.2.strength < b.2.strength
    · simp [hlt]
    · by_cases heq : c.2.strength = b.2.strength
      · by_cases hright : groupsRight c.2.text = true <;> simp [heq, hright]
      · simp [hlt, heq]

theorem splitFrom?_eq (before : List Token) (best : Option (Nat × Token))
    (h : openAfter stack rest = some []) :
    splitFrom? (before ++ rest) before.length stack.length (best.map found) rest =
      some (((candidates before.getLast? stack.length before.length rest).foldl better best).map
        Prod.fst) := by
  -- The count is the number of brackets open, so it can go down wherever one is closed.
  induction rest generalizing before stack best with
  | nil => simp [splitFrom?, candidates, found, Function.comp_def]
  | cons t rest ih =>
    obtain ⟨stack', ht, hrest⟩ := Option.bind_eq_some_iff.1 h
    have hnext (best : Option (Nat × Token)) :
        splitFrom? (before ++ t :: rest) (before.length + 1) stack'.length (best.map found) rest =
          some (((candidates (some t) stack'.length (before.length + 1) rest).foldl better
            best).map Prod.fst) := by
      have := ih (before ++ [t]) best hrest
      simpa using this
    obtain ⟨ho, rfl⟩ | ⟨hc, b, rfl, -⟩ | ⟨hp, rfl⟩ := bracketsAfter_cases ht
    · simp only [splitFrom?, candidates, ho, ↓reduceIte]
      exact hnext best
    · simp only [splitFrom?, candidates, not_opens_of_closes hc, hc, Bool.false_eq_true, ↓reduceIte]
      exact hnext best
    · simp only [splitFrom?, candidates, hp.1, hp.2, Bool.false_eq_true, ↓reduceIte,
        operandBefore?_eq]
      by_cases hop : (stack'.length = 0 && t.isOperator) = true
      · by_cases hbefore : before.getLast?.any Token.endsOperand = true
        · have hbetter := isBetter_found best (before.length, t)
          simp only [hop, hbefore, Bool.true_and, ↓reduceIte, Option.bind_eq_bind, Option.bind_some,
            List.foldl_cons]
          rw [← hnext, ← hbetter]
          split <;> rfl
        · simp only [hop, hbefore, Bool.false_and, Bool.and_false, ↓reduceIte, Option.bind_eq_bind,
            Option.bind_some, Bool.false_eq_true]
          exact hnext best
      · simp only [hop, Bool.false_and, ↓reduceIte, Bool.false_eq_true]
        exact hnext best

theorem foldl_better (first : Nat × Token) (others : List (Nat × Token)) :
    others.foldl better (some first) = some (others.foldl looser first) := by
  induction others generalizing first with
  | nil => rfl
  | cons c others ih => exact ih (looser first c)

/-- A nested span is cut at the position of its loosest operator. -/
theorem splitPosition?_eq (h : Nested span) :
    splitPosition? span = some ((splitPoint span).map Prod.fst) := by
  have hscan : splitPosition? span = _ := splitFrom?_eq [] none h
  rw [hscan, splitPoint]
  show some (Option.map Prod.fst ((candidates none 0 0 span).foldl better none)) = _
  cases candidates none 0 0 span with
  | nil => rfl
  | cons first others => rw [List.foldl_cons, better, Option.elim_none, foldl_better]

/-! ### The partner of a bracket -/

/-- The position of the bracket that closes the first one of some tokens, from a position on
and with brackets open before. -/
def closingFrom? : Nat → Nat → List Token → Option Nat
  | _, _, [] => none
  | position, depth, t :: rest =>
    if t.opens then closingFrom? (position + 1) (depth + 1) rest
    else if t.closes then do
      let depth ← depth.ppred
      if depth = 0 then return position
      closingFrom? (position + 1) depth rest
    else closingFrom? (position + 1) depth rest

/-- The position of the bracket that closes the one at a position. -/
def closing? (span : List Token) (opening : Nat) : Option Nat :=
  closingFrom? opening 0 (span.drop opening)

theorem closingFrom?_eq (position : Nat) (h : openAfter stack inner = some [])
    (hc : closing.closes = true) (behind : List Token) :
    closingFrom? position (stack.length + 1) (inner ++ closing :: behind) =
      some (position + inner.length) := by
  induction inner generalizing position stack with
  | nil =>
    obtain rfl := Option.some.inj h
    simp only [List.nil_append, closingFrom?, not_opens_of_closes hc, hc, Bool.false_eq_true,
      ↓reduceIte]
    rfl
  | cons t rest ih =>
    obtain ⟨stack', ht, hrest⟩ := Option.bind_eq_some_iff.1 h
    have hnext := ih (position + 1) hrest
    rw [Nat.add_right_comm] at hnext
    rw [List.cons_append, List.length_cons, ← Nat.add_assoc, ← hnext]
    obtain ⟨ho, rfl⟩ | ⟨hc, b, rfl, -⟩ | ⟨hp, rfl⟩ := bracketsAfter_cases ht
    · simp only [closingFrom?, ho, ↓reduceIte, List.length_cons]
    · simp only [closingFrom?, not_opens_of_closes hc, hc, Bool.false_eq_true, ↓reduceIte,
        List.length_cons]
      rfl
    · simp only [closingFrom?, hp.1, hp.2, Bool.false_eq_true, ↓reduceIte]

/-- In a nested span each opening bracket has a partner of its own kind, and the brackets in
between are nested. -/
theorem exists_closing? (h : Nested (before ++ opening :: rest)) (ho : opening.opens = true) :
    ∃ inner closing behind, rest = inner ++ closing :: behind ∧ Nested inner ∧
      closing.closes = true ∧ opening.kind = closing.kind.partner ∧
      closing? (before ++ opening :: rest) before.length =
        some (before.length + 1 + inner.length) := by
  rw [Nested, openAfter_append] at h
  obtain ⟨below, -, h⟩ := Option.bind_eq_some_iff.1 h
  rw [openAfter, bracketsAfter_opens below ho] at h
  have hclose : openAfter ([] ++ opening :: below) rest = some [] := h
  obtain ⟨inner, closing, behind, rfl, hinner, hk, hc, -⟩ := exists_closing hclose
  refine ⟨inner, closing, behind, rfl, hinner, hc, hk, ?_⟩
  rw [closing?, List.drop_left, closingFrom?, if_pos ho]
  exact closingFrom?_eq _ hinner hc behind

/-! ### Parts between commas -/

/-- The parts between commas, from a position on; the first of them begins at `start`. -/
def partsFrom? (span : List Token) : Nat → Nat → Nat → List Token → Option (List (List Token))
  | start, _, _, [] => do
    let part ← slice? span start span.length
    return [part]
  | start, position, depth, t :: rest =>
    if t.opens then partsFrom? span start (position + 1) (depth + 1) rest
    else if t.closes then do
      let depth ← depth.ppred
      partsFrom? span start (position + 1) depth rest
    else if depth = 0 && t.kind = .comma then do
      let part ← slice? span start position
      let parts ← partsFrom? span (position + 1) (position + 1) depth rest
      return part :: parts
    else partsFrom? span start (position + 1) depth rest

/-- The parts of a span between its commas outside brackets. -/
def splitCommas? (span : List Token) : Option (List (List Token)) :=
  partsFrom? span 0 0 0 span

theorem modifyHead_nil_append (parts : List (List Token)) : parts.modifyHead ([] ++ ·) = parts := by
  cases parts <;> rfl

theorem partsFrom?_eq (before part : List Token) (h : openAfter stack rest = some []) :
    partsFrom? (before ++ (part ++ rest)) before.length (before.length + part.length) stack.length
        rest =
      some ((splitCommas stack.length rest).modifyHead (part ++ ·)) := by
  induction rest generalizing before part stack with
  | nil =>
    rw [partsFrom?, slice?_to_end]
    rfl
  | cons t rest ih =>
    obtain ⟨stack', ht, hrest⟩ := Option.bind_eq_some_iff.1 h
    have hnext := ih before (part ++ [t]) hrest
    have hpart : (splitCommas stack'.length rest).modifyHead (part ++ [t] ++ ·) =
        ((splitCommas stack'.length rest).modifyHead (t :: ·)).modifyHead (part ++ ·) := by
      rw [List.modifyHead_modifyHead]
      simp [Function.comp_def]
    rw [hpart, List.append_assoc, List.singleton_append, List.length_append, List.length_singleton,
      ← Nat.add_assoc] at hnext
    obtain ⟨ho, rfl⟩ | ⟨hc, b, rfl, -⟩ | ⟨hp, rfl⟩ := bracketsAfter_cases ht
    · rw [splitCommas_opens _ ho, partsFrom?, if_pos ho]
      exact hnext
    · rw [splitCommas_closes _ hc, partsFrom?, if_neg (by simp [not_opens_of_closes hc]), if_pos hc]
      exact hnext
    · rw [partsFrom?, if_neg (by simp [hp.1]), if_neg (by simp [hp.2])]
      by_cases hcomma : stack'.length = 0 ∧ t.kind = .comma
      · obtain rfl := List.length_eq_zero_iff.1 hcomma.1
        have hlater := ih (before ++ (part ++ [t])) [] hrest
        rw [modifyHead_nil_append, List.append_assoc, List.append_assoc] at hlater
        simp only [List.length_append, List.length_singleton, List.length_nil, Nat.add_zero,
          ← Nat.add_assoc, List.singleton_append, List.nil_append] at hlater
        rw [if_pos (by simp [hcomma.2]), List.length_nil, splitCommas_comma hcomma.2, slice?_append,
          hlater, List.modifyHead_cons, List.append_nil]
        rfl
      · rw [if_neg (by simpa using hcomma), splitCommas_plain hp (by simpa using hcomma)]
        exact hnext

/-- A nested span is taken apart at its commas. -/
theorem splitCommas?_eq (h : Nested span) : splitCommas? span = some (splitCommas 0 span) := by
  have hscan : splitCommas? span = _ := partsFrom?_eq [] [] h
  rw [hscan, modifyHead_nil_append, List.length_nil]

/-! ### Forms -/

/-- Whether the bracket at a position is closed by the token at the last one. -/
def closesLast? (span : List Token) (opening last : Nat) : Option Bool := do
  let closing ← closing? span opening
  return closing = last

/-- Whether the first token opens a bracket that the last one closes. -/
def isEnclosed? (span : List Token) (first : Token) (last : Nat) : Option Bool :=
  if first.opens then closesLast? span 0 last else some false

/-- Whether a name stands before a parenthesis that the last token closes. -/
def isCall? (span : List Token) (first : Token) (last : Nat) : Option Bool :=
  if first.kind = .word then do
    let bracket ← span[1]?
    if bracket.kind = .openParen then closesLast? span 1 last else return false
  else some false

/-- The form of a span without operators to cut at. -/
def primary? (span : List Token) : Option Shape := do
  let first ← span[0]?
  let last ← span.length.psub 1
  if span.length = 1 then return .atom first
  let enclosed ← isEnclosed? span first last
  if enclosed then
    let inner ← slice? span 1 last
    return if first.kind = .openParen then .group inner else .list inner
  let call ← isCall? span first last
  if call then
    let inner ← slice? span 2 last
    return .call first inner
  return .other

/-- The outermost form of a span. -/
def shape? (span : List Token) : Option Shape :=
  match span.head? with
  | none => some .empty
  | some first => do
    let split ← splitPosition? span
    match split with
    | none =>
      if first.isOperator then
        let operand ← slice? span 1 span.length
        return .unary first operand
      primary? span
    | some position =>
      let op ← span[position]?
      if first.isOperator && first.strength < op.strength then
        let operand ← slice? span 1 span.length
        return .unary first operand
      let left ← slice? span 0 position
      let right ← slice? span (position + 1) span.length
      return .binary left op right

theorem closesLast?_eq (before : List Token) (h : Nested (before ++ opening :: rest))
    (ho : opening.opens = true) :
    closesLast? (before ++ opening :: rest) before.length (before.length + rest.length) =
      some (closesAtEnd 0 (opening :: rest)) := by
  obtain ⟨inner, closing, behind, rfl, hinner, hc, -, hclosing⟩ := exists_closing? h ho
  rw [closesLast?, hclosing, closesAtEnd, if_pos ho, closesAtEnd_inside hinner hc]
  cases behind <;> simp <;> omega

theorem isEnclosed?_eq {first : Token} (h : Nested (first :: rest)) :
    isEnclosed? (first :: rest) first rest.length =
      some (first.opens && closesAtEnd 0 (first :: rest)) := by
  rw [isEnclosed?]
  cases ho : first.opens with
  | false => rfl
  | true =>
    have hlast : closesLast? (first :: rest) 0 rest.length = _ :=
      Nat.zero_add rest.length ▸ closesLast?_eq [] h ho
    rw [if_pos rfl, hlast, Bool.true_and]

theorem isCall?_eq {first bracket : Token} (h : Nested (first :: bracket :: inner)) :
    isCall? (first :: bracket :: inner) first (bracket :: inner).length =
      some (first.kind = .word && bracket.kind = .openParen &&
        closesAtEnd 0 (bracket :: inner)) := by
  rw [isCall?]
  by_cases hword : first.kind = .word
  · rw [if_pos hword]
    show (if bracket.kind = .openParen then closesLast? _ 1 _ else some false) = _
    by_cases hparen : bracket.kind = .openParen
    · have hlast : closesLast? (first :: bracket :: inner) 1 (1 + inner.length) = _ :=
        closesLast?_eq [first] h (Token.opens_of_kind_openParen hparen)
      rw [if_pos hparen, List.length_cons, Nat.add_comm, hlast]
      simp [hword, hparen]
    · simp [hparen]
  · simp [hword]

theorem primary?_eq {first : Token} (h : Nested (first :: rest)) :
    primary? (first :: rest) = some (Shape.primary first rest) := by
  show (if (first :: rest).length = 1 then _ else _) = _
  cases rest with
  | nil => rfl
  | cons bracket inner =>
    rw [if_neg (by simp), Shape.primary, if_neg (by simp)]
    show (isEnclosed? _ first (bracket :: inner).length).bind _ = _
    rw [isEnclosed?_eq h, Option.bind_some]
    split
    · have hinner : slice? (first :: bracket :: inner) 1 (bracket :: inner).length = _ :=
        Nat.add_comm 1 inner.length ▸ slice?_to_last [first] bracket inner
      rw [hinner]
      rfl
    · rw [isCall?_eq h]
      show (if _ then _ else some Shape.other) = some (if _ then _ else _)
      split
      · next hcall =>
        simp only [Bool.and_eq_true, decide_eq_true_eq] at hcall
        cases inner with
        | nil => simp [closesAtEnd, Token.opens_of_kind_openParen hcall.1.2] at hcall
        | cons t inner =>
          have hinner : slice? (first :: bracket :: t :: inner) 2
              (bracket :: t :: inner).length = _ :=
            Nat.add_comm 2 inner.length ▸ slice?_to_last [first, bracket] t inner
          rw [hinner]
          rfl
      · rfl

/-- **The form of a nested span is found by positions**: no index or slice leaves the span, no
count falls below zero, and no bracket is without a partner. -/
theorem shape?_eq (h : Nested span) : shape? span = some (Shape.of span) := by
  cases span with
  | nil => rfl
  | cons first rest =>
    have hoperand : slice? (first :: rest) 1 (first :: rest).length = some rest :=
      slice?_to_end [first] rest
    rw [shape?, Shape.of, List.head?_cons]
    dsimp only
    rw [splitPosition?_eq h]
    cases hsplit : splitPoint (first :: rest) with
    | none =>
      show (if first.isOperator then _ else _) = some (if first.isOperator then _ else _)
      split
      · rw [hoperand]
        rfl
      · exact primary?_eq h
    | some c =>
      obtain ⟨position, op⟩ := c
      obtain ⟨left, right, hspan, hposition, -⟩ := standsAt_of_candidates (splitPoint_mem hsplit)
      obtain rfl : position = left.length := by simpa using hposition
      have hop : (first :: rest)[left.length]? = some op := by rw [hspan]; simp
      have hleft : slice? (first :: rest) 0 left.length = some left := by
        rw [hspan]
        simpa using slice?_append [] left (op :: right)
      have hright : slice? (first :: rest) (left.length + 1) (first :: rest).length = some right := by
        rw [hspan]
        simpa using slice?_to_end (left ++ [op]) right
      have htake : (first :: rest).take left.length = left := by rw [hspan, List.take_left]
      have hdrop : (first :: rest).drop (left.length + 1) = right := by
        rw [hspan, ← List.drop_drop, List.drop_left]
        rfl
      show ((first :: rest)[left.length]?).bind _ = some (if _ then _ else _)
      rw [hop, Option.bind_some, htake, hdrop]
      split
      · rw [hoperand]
        rfl
      · rw [hleft, hright]
        rfl

end Checked

end Formulary
