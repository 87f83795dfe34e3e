import Formulary.Token.Nesting

/-! Correctly nested spans.

`openAfter` reads a span and keeps the brackets open, the innermost first. A span is
`Nested` if it closes all that it opens and nothing else. The scanners of a span only
count brackets; on nested spans their count is the number of brackets open
(`depthAfter_eq`), so that they cut a nested span into nested ones
(`nested_of_closesAtEnd`, `nested_of_splitCommas`). -/
namespace Formulary

variable {t : Token} {brackets after span a b rest : List Token}

/-! ### Open brackets -/

/-- The brackets open after a token; nothing if the token closes none of them. -/
def bracketsAfter (brackets : List Token) (t : Token) : Option (List Token) :=
  if t.opens then some (t :: brackets)
  else if t.closes then
    match brackets with
    | b :: outer => if b.kind = t.kind.partner then some outer else none
    | [] => none
  else some brackets

/-- The brackets open after a span. -/
def openAfter : List Token → List Token → Option (List Token)
  | brackets, [] => some brackets
  | brackets, t :: rest => (bracketsAfter brackets t).bind fun open' => openAfter open' rest

/-- Every bracket of the span is closed in it, by its own kind and in order. -/
def Nested (span : List Token) : Prop := openAfter [] span = some []

instance (span : List Token) : Decidable (Nested span) :=
  inferInstanceAs (Decidable (openAfter [] span = some []))

/-- Neither opens nor closes. -/
def Token.IsPlain (t : Token) : Prop := t.opens = false ∧ t.closes = false

theorem not_opens_of_closes (h : t.closes = true) : t.opens = false := by
  cases ho : t.opens with
  | false => rfl
  | true => rw [Token.not_closes_of_opens ho] at h; cases h

theorem bracketsAfter_plain (brackets : List Token) (h : t.IsPlain) :
    bracketsAfter brackets t = some brackets := by
  simp [bracketsAfter, h.1, h.2]

theorem bracketsAfter_opens (brackets : List Token) (h : t.opens = true) :
    bracketsAfter brackets t = some (t :: brackets) := by
  simp [bracketsAfter, h]

theorem bracketsAfter_closes (outer : List Token) {b : Token} (h : t.closes = true)
    (hb : b.kind = t.kind.partner) : bracketsAfter (b :: outer) t = some outer := by
  simp [bracketsAfter, not_opens_of_closes h, h, hb]

/-- All that a token can do to the open brackets. -/
theorem bracketsAfter_cases (h : bracketsAfter brackets t = some after) :
    (t.opens = true ∧ after = t :: brackets) ∨
    (t.closes = true ∧ ∃ b, brackets = b :: after ∧ b.kind = t.kind.partner) ∨
    (t.IsPlain ∧ after = brackets) := by
  unfold bracketsAfter at h
  cases ho : t.opens with
  | true =>
    rw [if_pos ho] at h
    exact .inl ⟨rfl, (Option.some.inj h).symm⟩
  | false =>
    rw [if_neg (by simp [ho])] at h
    cases hc : t.closes with
    | false =>
      rw [if_neg (by simp [hc])] at h
      exact .inr (.inr ⟨⟨ho, hc⟩, (Option.some.inj h).symm⟩)
    | true =>
      rw [if_pos hc] at h
      cases brackets with
      | nil => cases h
      | cons b outer =>
        simp only at h
        split at h
        · next hb => exact .inr (.inl ⟨rfl, b, by rw [Option.some.inj h], hb⟩)
        · cases h

/-- What is open outside stays open. -/
theorem bracketsAfter_under (outer : List Token) (h : bracketsAfter brackets t = some after) :
    bracketsAfter (brackets ++ outer) t = some (after ++ outer) := by
  obtain ⟨ho, rfl⟩ | ⟨hc, b, rfl, hb⟩ | ⟨hp, rfl⟩ := bracketsAfter_cases h
  · exact bracketsAfter_opens _ ho
  · exact bracketsAfter_closes _ hc hb
  · exact bracketsAfter_plain _ hp

theorem openAfter_append (brackets a b : List Token) :
    openAfter brackets (a ++ b) =
      (openAfter brackets a).bind fun open' => openAfter open' b := by
  induction a generalizing brackets with
  | nil => rfl
  | cons t rest ih =>
    simp only [List.cons_append, openAfter]
    cases bracketsAfter brackets t with
    | none => rfl
    | some open' => exact ih open'

theorem openAfter_under (outer : List Token) (h : openAfter brackets span = some after) :
    openAfter (brackets ++ outer) span = some (after ++ outer) := by
  induction span generalizing brackets with
  | nil => rw [← Option.some.inj h]; rfl
  | cons t rest ih =>
    obtain ⟨open', ht, hrest⟩ := Option.bind_eq_some_iff.1 h
    rw [openAfter, bracketsAfter_under outer ht]
    exact ih hrest

/-- A nested span leaves open what was open. -/
theorem Nested.openAfter_eq (h : Nested span) (brackets : List Token) :
    openAfter brackets span = some brackets :=
  openAfter_under brackets h

theorem openAfter_append_of_nested (brackets b : List Token) (h : Nested a) :
    openAfter brackets (a ++ b) = openAfter brackets b := by
  rw [openAfter_append, h.openAfter_eq]
  rfl

/-- The brackets are those of a nested span exactly if none of them is to blame. -/
theorem firstUnmatched_eq_none_iff (brackets span : List Token) :
    firstUnmatched brackets span = none ↔ openAfter brackets span = some [] := by
  induction span generalizing brackets with
  | nil => cases brackets <;> simp [firstUnmatched, openAfter]
  | cons t rest ih =>
    unfold firstUnmatched openAfter bracketsAfter
    split
    · exact ih _
    · split
      · cases brackets with
        | nil => simp
        | cons b outer =>
          simp only
          split
          · exact ih outer
          · simp
      · exact ih brackets

theorem nested_iff (span : List Token) : Nested span ↔ firstUnmatched [] span = none :=
  (firstUnmatched_eq_none_iff [] span).symm

/-! ### Building nested spans -/

theorem nested_nil : Nested [] := rfl

theorem nested_plain (h : t.IsPlain) : Nested [t] := by
  rw [Nested, openAfter, bracketsAfter_plain [] h]
  rfl

theorem Nested.append (ha : Nested a) (hb : Nested b) : Nested (a ++ b) := by
  rw [Nested, openAfter_append_of_nested [] b ha]
  exact hb

theorem Nested.cons (ht : t.IsPlain) (h : Nested span) : Nested (t :: span) :=
  (nested_plain ht).append h

/-- The second part of a nested span whose first part is nested. -/
theorem Nested.of_append (h : Nested (a ++ b)) (ha : Nested a) : Nested b := by
  rwa [Nested, openAfter_append_of_nested [] b ha] at h

theorem Nested.of_cons (h : Nested (t :: span)) (ht : t.IsPlain) : Nested span :=
  Nested.of_append (a := [t]) h (nested_plain ht)

theorem Nested.enclosed {opening closing : Token} (h : Nested span) (ho : opening.opens = true)
    (hc : closing.closes = true) (hk : opening.kind = closing.kind.partner) :
    Nested (opening :: (span ++ [closing])) := by
  rw [Nested, openAfter, bracketsAfter_opens [] ho]
  show openAfter [opening] (span ++ [closing]) = some []
  rw [openAfter_append_of_nested _ _ h, openAfter, bracketsAfter_closes [] hc hk]
  rfl

/-! ### Depth -/

/-- The count of open brackets that a scanner keeps; a surplus closing bracket is ignored. -/
def depthAfter : Nat → List Token → Nat
  | depth, [] => depth
  | depth, t :: rest =>
    if t.opens then depthAfter (depth + 1) rest
    else if t.closes then depthAfter (depth - 1) rest
    else depthAfter depth rest

theorem depthAfter_opens (depth : Nat) (h : t.opens = true) :
    depthAfter depth (t :: rest) = depthAfter (depth + 1) rest := by
  rw [depthAfter, if_pos h]

theorem depthAfter_closes (depth : Nat) (h : t.closes = true) :
    depthAfter depth (t :: rest) = depthAfter (depth - 1) rest := by
  rw [depthAfter, if_neg (by simp [not_opens_of_closes h]), if_pos h]

theorem depthAfter_plain (depth : Nat) (h : t.IsPlain) :
    depthAfter depth (t :: rest) = depthAfter depth rest := by
  rw [depthAfter, if_neg (by simp [h.1]), if_neg (by simp [h.2])]

/-- As long as no bracket fails, the count is the number of brackets open. -/
theorem depthAfter_eq (h : openAfter brackets span = some after) :
    depthAfter brackets.length span = after.length := by
  induction span generalizing brackets with
  | nil => rw [← Option.some.inj h]; rfl
  | cons t rest ih =>
    obtain ⟨open', ht, hrest⟩ := Option.bind_eq_some_iff.1 h
    rw [← ih hrest]
    obtain ⟨ho, rfl⟩ | ⟨hc, b, rfl, -⟩ | ⟨hp, rfl⟩ := bracketsAfter_cases ht
    · exact depthAfter_opens _ ho
    · exact depthAfter_closes _ hc
    · exact depthAfter_plain _ hp

/-! ### The span inside brackets -/

/-- A scan that starts inside an enclosing bracket comes to its end only with it. -/
theorem closesAtEnd_append (outside : Nat) (h : openAfter brackets a = some after)
    (b : List Token) :
    closesAtEnd (brackets.length + (outside + 1)) (a ++ b) =
      closesAtEnd (after.length + (outside + 1)) b := by
  induction a generalizing brackets with
  | nil => rw [← Option.some.inj h]; rfl
  | cons t rest ih =>
    obtain ⟨open', ht, hrest⟩ := Option.bind_eq_some_iff.1 h
    rw [← ih hrest, List.cons_append, closesAtEnd]
    obtain ⟨ho, rfl⟩ | ⟨hc, b', rfl, -⟩ | ⟨hp, rfl⟩ := bracketsAfter_cases ht
    · rw [if_pos ho, List.length_cons]
      congr 1
      omega
    · rw [if_neg (by simp [not_opens_of_closes hc]), if_pos hc,
        if_neg (by rw [List.length_cons]; omega), List.length_cons]
      congr 1
      omega
    · rw [if_neg (by simp [hp.1]), if_neg (by simp [hp.2])]

/-- What is open is closed somewhere, by its own kind, if in the end nothing is open. -/
theorem exists_closing {opening : Token} {below : List Token}
    (h : openAfter (brackets ++ opening :: below) span = some []) :
    ∃ inner closing behind, span = inner ++ closing :: behind ∧
      openAfter brackets inner = some [] ∧ opening.kind = closing.kind.partner ∧
      closing.closes = true ∧ openAfter below behind = some [] := by
  induction span generalizing brackets with
  | nil => simp [openAfter] at h
  | cons t rest ih =>
    obtain ⟨open', ht, hrest⟩ := Option.bind_eq_some_iff.1 h
    have further {brackets' : List Token} (hbrackets : bracketsAfter brackets t = some brackets')
        (hopen : open' = brackets' ++ opening :: below) :
        ∃ inner closing behind, t :: rest = inner ++ closing :: behind ∧
          openAfter brackets inner = some [] ∧ opening.kind = closing.kind.partner ∧
          closing.closes = true ∧ openAfter below behind = some [] := by
      obtain ⟨inner, closing, behind, rfl, hinner, hclosing⟩ := ih (hopen ▸ hrest)
      exact ⟨t :: inner, closing, behind, rfl, by rw [openAfter, hbrackets]; exact hinner, hclosing⟩
    obtain ⟨ho, hopen⟩ | ⟨hc, b, hb, hk⟩ | ⟨hp, hopen⟩ := bracketsAfter_cases ht
    · exact further (bracketsAfter_opens brackets ho) hopen
    · cases brackets with
      | nil =>
        obtain ⟨rfl, rfl⟩ := List.cons.inj hb
        exact ⟨[], t, rest, rfl, rfl, hk, hc, hrest⟩
      | cons b' brackets =>
        obtain ⟨rfl, rfl⟩ := List.cons.inj hb
        exact further (bracketsAfter_closes brackets hc hk) rfl
    · exact further (bracketsAfter_plain brackets hp) hopen

/-- A bracket around a nested span is closed at the end if nothing follows. -/
theorem closesAtEnd_inside {closing : Token} (h : Nested span) (hc : closing.closes = true)
    (behind : List Token) : closesAtEnd 1 (span ++ closing :: behind) = behind.isEmpty := by
  show closesAtEnd (([] : List Token).length + (0 + 1)) (span ++ closing :: behind) = _
  rw [closesAtEnd_append 0 h, closesAtEnd, if_neg (by simp [not_opens_of_closes hc]), if_pos hc]
  rfl

/-- The bracket around a nested span is closed at its end. -/
theorem closesAtEnd_enclosed {opening closing : Token} (h : Nested span)
    (ho : opening.opens = true) (hc : closing.closes = true) :
    closesAtEnd 0 (opening :: (span ++ [closing])) = true := by
  rw [closesAtEnd, if_pos ho]
  exact closesAtEnd_inside h hc []

/-- Of a nested span whose first bracket is closed at the end, the rest is a nested span
and a bracket of the same kind. -/
theorem nested_of_closesAtEnd {opening : Token} (h : Nested (opening :: rest))
    (ho : opening.opens = true) (hend : closesAtEnd 0 (opening :: rest) = true) :
    ∃ inner closing, rest = inner ++ [closing] ∧ Nested inner ∧ closing.closes = true ∧
      opening.kind = closing.kind.partner := by
  rw [Nested, openAfter, bracketsAfter_opens [] ho] at h
  have hclose : openAfter ([] ++ [opening]) rest = some [] := h
  obtain ⟨inner, closing, behind, rfl, hinner, hk, hc, -⟩ := exists_closing hclose
  rw [closesAtEnd, if_pos ho, closesAtEnd_inside hinner hc, List.isEmpty_iff] at hend
  exact ⟨inner, closing, by rw [hend], hinner, hc, hk⟩

/-! ### Parts between commas -/

/-- The parts of a span, with a comma between neighbours. -/
inductive Joined : List (List Token) → List Token → Prop where
  | last (part : List Token) : Joined [part] part
  | more {parts : List (List Token)} {rest : List Token} (part : List Token) {comma : Token} :
      comma.kind = .comma → Joined parts rest → Joined (part :: parts) (part ++ comma :: rest)

theorem Joined.consFirst {parts : List (List Token)} (t : Token) (h : Joined parts span) :
    Joined (splitCommas.consFirst t parts) (t :: span) := by
  cases h with
  | last => exact .last (t :: span)
  | more part hcomma h => exact .more (t :: part) hcomma h

/-- Nothing is lost between the parts but commas. -/
theorem joined_splitCommas (depth : Nat) (span : List Token) :
    Joined (splitCommas depth span) span := by
  fun_induction splitCommas depth span with
  | case1 => exact .last []
  | case2 depth t rest _ ih => exact ih.consFirst t
  | case3 depth t rest _ _ ih => exact ih.consFirst t
  | case4 depth t rest _ _ hcomma ih =>
    have hkind : t.kind = .comma := by simp at hcomma; exact hcomma.2
    exact .more [] hkind ih
  | case5 depth t rest _ _ _ ih => exact ih.consFirst t

theorem isPlain_comma (h : t.kind = .comma) : t.IsPlain := by
  simp [Token.IsPlain, Token.opens, Token.closes, h]

theorem Joined.subset {parts : List (List Token)} (h : Joined parts span) :
    ∀ part ∈ parts, part ⊆ span := by
  induction h with
  | last part => exact List.forall_mem_singleton.2 (List.Subset.refl part)
  | more part _ _ ih =>
    refine List.forall_mem_cons.2 ⟨List.subset_append_left part _, fun p hp => ?_⟩
    exact List.Subset.trans (ih p hp) (List.subset_append_of_subset_right _
      (List.subset_cons_self _ _))

/-- The first part ends with nothing open, and each other part is nested. -/
theorem openAfter_splitCommas (h : openAfter brackets span = some []) :
    ∃ first others, splitCommas brackets.length span = first :: others ∧
      openAfter brackets first = some [] ∧ ∀ part ∈ others, Nested part := by
  induction span generalizing brackets with
  | nil => exact ⟨[], [], rfl, h, fun _ hp => nomatch hp⟩
  | cons t rest ih =>
    obtain ⟨open', ht, hrest⟩ := Option.bind_eq_some_iff.1 h
    obtain ⟨first, others, hsplit, hfirst, hothers⟩ := ih hrest
    have hcons : openAfter brackets (t :: first) = some [] := by rw [openAfter, ht]; exact hfirst
    rw [splitCommas]
    obtain ⟨ho, rfl⟩ | ⟨hc, b, rfl, -⟩ | ⟨hp, rfl⟩ := bracketsAfter_cases ht
    · rw [if_pos ho]
      rw [List.length_cons] at hsplit
      rw [hsplit]
      exact ⟨t :: first, others, rfl, hcons, hothers⟩
    · rw [if_neg (by simp [not_opens_of_closes hc]), if_pos hc, List.length_cons,
        Nat.add_sub_cancel, hsplit]
      exact ⟨t :: first, others, rfl, hcons, hothers⟩
    · rw [if_neg (by simp [hp.1]), if_neg (by simp [hp.2]), hsplit]
      split
      · next hcomma =>
        have hnil : open' = [] := by simp at hcomma; exact hcomma.1
        subst hnil
        refine ⟨[], first :: others, rfl, rfl, fun part hpart => ?_⟩
        rcases List.mem_cons.1 hpart with rfl | hpart
        · exact hfirst
        · exact hothers part hpart
      · exact ⟨t :: first, others, rfl, hcons, hothers⟩

/-- The parts of a nested span are nested. -/
theorem nested_of_splitCommas (h : Nested span) : ∀ part ∈ splitCommas 0 span, Nested part := by
  obtain ⟨first, others, hsplit, hfirst, hothers⟩ := openAfter_splitCommas h
  rw [List.length_nil] at hsplit
  rw [hsplit]
  intro part hpart
  rcases List.mem_cons.1 hpart with rfl | hpart
  · exact hfirst
  · exact hothers part hpart

theorem splitCommas_consFirst {parts : List (List Token)} (h : parts ≠ []) (t : Token) :
    splitCommas.consFirst t parts = parts.modifyHead (t :: ·) := by
  cases parts with
  | nil => exact absurd rfl h
  | cons part parts => rfl

theorem splitCommas_opens (depth : Nat) (h : t.opens = true) :
    splitCommas depth (t :: rest) = (splitCommas (depth + 1) rest).modifyHead (t :: ·) := by
  rw [splitCommas, if_pos h, splitCommas_consFirst (splitCommas_ne_nil _ _)]

theorem splitCommas_closes (depth : Nat) (h : t.closes = true) :
    splitCommas depth (t :: rest) = (splitCommas (depth - 1) rest).modifyHead (t :: ·) := by
  rw [splitCommas, if_neg (by simp [not_opens_of_closes h]), if_pos h,
    splitCommas_consFirst (splitCommas_ne_nil _ _)]

theorem splitCommas_plain {depth : Nat} (h : t.IsPlain) (hcomma : depth = 0 → t.kind ≠ .comma) :
    splitCommas depth (t :: rest) = (splitCommas depth rest).modifyHead (t :: ·) := by
  rw [splitCommas, if_neg (by simp [h.1]), if_neg (by simp [h.2]), if_neg (by simpa using hcomma),
    splitCommas_consFirst (splitCommas_ne_nil _ _)]

theorem splitCommas_comma (h : t.kind = .comma) :
    splitCommas 0 (t :: rest) = [] :: splitCommas 0 rest := by
  have hp := isPlain_comma h
  rw [splitCommas, if_neg (by simp [hp.1]), if_neg (by simp [hp.2]), if_pos (by simp [h])]

theorem eq_singleton_of_modifyHead {parts : List (List Token)}
    (h : parts.modifyHead (t :: ·) = [t :: rest]) : parts = [rest] := by
  cases parts with
  | nil => cases h
  | cons part parts =>
    obtain ⟨hpart, rfl⟩ := List.cons.inj h
    rw [(List.cons.inj hpart).2]

/-- Behind a span without commas outside brackets, a scan goes on in its last part. -/
theorem splitCommas_append {depth : Nat} (h : splitCommas depth a = [a]) (b : List Token) :
    splitCommas depth (a ++ b) = (splitCommas (depthAfter depth a) b).modifyHead (a ++ ·) := by
  induction a generalizing depth with
  | nil =>
    show splitCommas depth b = (splitCommas depth b).modifyHead id
    rw [List.modifyHead_id]
    rfl
  | cons t rest ih =>
    rw [List.cons_append]
    by_cases ho : t.opens = true
    · rw [splitCommas_opens _ ho] at h ⊢
      rw [ih (eq_singleton_of_modifyHead h), depthAfter_opens _ ho, List.modifyHead_modifyHead]
      rfl
    by_cases hc : t.closes = true
    · rw [splitCommas_closes _ hc] at h ⊢
      rw [ih (eq_singleton_of_modifyHead h), depthAfter_closes _ hc, List.modifyHead_modifyHead]
      rfl
    have hp : t.IsPlain := ⟨by simpa using ho, by simpa using hc⟩
    have hcomma : depth = 0 → t.kind ≠ .comma := by
      rintro rfl hk
      rw [splitCommas_comma hk] at h
      cases h
    rw [splitCommas_plain hp hcomma] at h ⊢
    rw [ih (eq_singleton_of_modifyHead h), depthAfter_plain _ hp, List.modifyHead_modifyHead]
    rfl

end Formulary
