import Formulary.Proofs.Grammar

/-! Which bracket is blamed.

The brackets of a token list form a word over two pairs, and a `BracketWord` is one that is
correctly nested. A scan with a stack accepts the same lists (`bracketWord_iff`). Of a list
that it refuses it blames one bracket, and what it does is said here without a stack: the
`NearestOpen` bracket is the last one behind which the brackets are nested; a closing bracket
is `Unpaired` if there is none before it, or one of the other kind; and `Blamed` is the first
unpaired bracket, or the nearest open one at the end if there is none (`blamed_iff`).

Nothing else blames brackets. A parser that has found them nested fails otherwise if at all
(`blameless_parse`), and a fragment of a text reports its own brackets as its own fault, so
that `parseTokens_unbalanced` holds in both directions. -/
namespace Formulary

variable {t b : Token} {before behind span stack w : List Token}

/-! ### Correctly nested words -/

/-- The correctly nested words over parentheses and square brackets. -/
inductive BracketWord : List Token → Prop where
  | empty : BracketWord []
  | parens {opening closing : Token} {u v : List Token} (ho : opening.kind = .openParen)
      (hc : closing.kind = .closeParen) (hu : BracketWord u) (hv : BracketWord v) :
      BracketWord (opening :: (u ++ closing :: v))
  | brackets {opening closing : Token} {u v : List Token} (ho : opening.kind = .openBracket)
      (hc : closing.kind = .closeBracket) (hu : BracketWord u) (hv : BracketWord v) :
      BracketWord (opening :: (u ++ closing :: v))

/-- The brackets among some tokens. -/
def brackets (tokens : List Token) : List Token :=
  tokens.filter fun t => t.opens || t.closes

theorem openAfter_brackets (stack span : List Token) :
    openAfter stack (brackets span) = openAfter stack span := by
  induction span generalizing stack with
  | nil => rfl
  | cons t rest ih =>
    by_cases ht : t.IsPlain
    · have hskip : brackets (t :: rest) = brackets rest :=
        List.filter_cons_of_neg (by simp [ht.1, ht.2])
      rw [hskip, ih, openAfter, bracketsAfter_plain stack ht]
      rfl
    · have hkeep : brackets (t :: rest) = t :: brackets rest :=
        List.filter_cons_of_pos (by simpa [Token.IsPlain, or_iff_not_imp_left] using ht)
      rw [hkeep, openAfter, openAfter]
      simp only [ih]

theorem nested_brackets_iff : Nested (brackets span) ↔ Nested span := by
  rw [Nested, Nested, openAfter_brackets]

/-- Both pairs at once. -/
theorem BracketWord.pair {opening closing : Token} {u v : List Token}
    (hk : opening.kind = closing.kind.partner) (hc : closing.closes = true) (hu : BracketWord u)
    (hv : BracketWord v) : BracketWord (opening :: (u ++ closing :: v)) := by
  obtain ⟨ho, hc⟩ | ⟨ho, hc⟩ := Token.kind_of_partner hc hk
  · exact .parens ho hc hu hv
  · exact .brackets ho hc hu hv

theorem BracketWord.nested (h : BracketWord w) : Nested w := by
  induction h with
  | empty => exact nested_nil
  | @parens opening closing u v ho hc _ _ ihu ihv
  | @brackets opening closing u v ho hc _ _ ihu ihv =>
    have hopens : opening.opens = true := by simp [Token.opens, ho]
    have hcloses : closing.closes = true := by simp [Token.closes, hc]
    have hpair := ihu.enclosed hopens hcloses (by rw [ho, hc]; rfl)
    have happend := hpair.append ihv
    rwa [List.cons_append, List.append_assoc] at happend

theorem bracketWord_of_nested (h : Nested w) (hw : ∀ t ∈ w, ¬ t.IsPlain) : BracketWord w := by
  induction hn : w.length using Nat.strongRecOn generalizing w with
  | ind n ih =>
    cases w with
    | nil => exact .empty
    | cons t rest =>
      obtain ⟨open', ht, hrest⟩ := Option.bind_eq_some_iff.1 h
      obtain ⟨ho, rfl⟩ | ⟨-, b, hb, -⟩ | ⟨hp, -⟩ := bracketsAfter_cases ht
      · have hclose : openAfter ([] ++ [t]) rest = some [] := hrest
        obtain ⟨inner, closing, behind, rfl, hinner, hk, hc, hbehind⟩ := exists_closing hclose
        simp only [List.mem_cons, List.mem_append] at hw
        simp only [List.length_cons, List.length_append] at hn
        refine .pair hk hc (ih _ (by omega) hinner (fun t ht => ?_) rfl)
          (ih _ (by omega) hbehind (fun t ht => ?_) rfl)
        · exact hw t (.inr (.inl ht))
        · exact hw t (.inr (.inr (.inr ht)))
      · cases hb
      · exact absurd hp (hw t List.mem_cons_self)

/-- The scan with a stack accepts what the words say. -/
theorem bracketWord_iff : BracketWord (brackets span) ↔ Nested span := by
  constructor
  · exact fun h => nested_brackets_iff.1 h.nested
  · refine fun h => bracketWord_of_nested (nested_brackets_iff.2 h) fun t ht hplain => ?_
    have hbracket := (List.mem_filter.1 ht).2
    simp [hplain.1, hplain.2] at hbracket

/-! ### The nearest open bracket -/

/-- The bracket still open that a closing one would have to close: the last one behind which
the brackets are nested. -/
def NearestOpen (before : List Token) (b : Token) : Prop :=
  b.opens = true ∧ ∃ outer inner, before = outer ++ b :: inner ∧ BracketWord (brackets inner)

/-- A closing bracket that finds no bracket open, or one of the other kind. -/
def Unpaired (before : List Token) (t : Token) : Prop :=
  t.closes = true ∧ ∀ b, NearestOpen before b → b.kind ≠ t.kind.partner

/-- Every closing bracket closes the one that is nearest. -/
def Paired (span : List Token) : Prop :=
  ∀ before t behind, span = before ++ t :: behind → ¬ Unpaired before t

/-- The bracket that is to blame: the first closing bracket that is unpaired, or if there is
none, the nearest open bracket at the end. -/
inductive Blamed : List Token → Token → Prop where
  | closing {before : List Token} {t : Token} (behind : List Token) (h : Paired before)
      (ht : Unpaired before t) : Blamed (before ++ t :: behind) t
  | leftOpen {span : List Token} {t : Token} (h : Paired span) (ht : NearestOpen span t) :
      Blamed span t

/-- Each open bracket stands before nested ones, and what is open before it is open below it. -/
theorem exists_inner_of_open (h : openAfter [] span = some (b :: stack)) :
    ∃ outer inner, span = outer ++ b :: inner ∧ b.opens = true ∧ Nested inner ∧
      openAfter [] outer = some stack := by
  induction hn : span.length using Nat.strongRecOn generalizing span b stack with
  | ind n ih =>
    cases span using List.reverseRecOn with
    | nil => cases h
    | append_singleton front t =>
      rw [List.length_append, List.length_singleton] at hn
      rw [openAfter_append] at h
      obtain ⟨stack', hfront, h⟩ := Option.bind_eq_some_iff.1 h
      obtain ⟨stack'', ht, h⟩ := Option.bind_eq_some_iff.1 h
      obtain rfl := Option.some.inj h
      obtain ⟨ho, heq⟩ | ⟨hc, c, rfl, hk⟩ | ⟨hp, rfl⟩ := bracketsAfter_cases ht
      · obtain ⟨rfl, rfl⟩ := List.cons.inj heq
        exact ⟨front, [], rfl, ho, nested_nil, hfront⟩
      · -- The bracket that is closed here was open over the one that is looked for.
        obtain ⟨outer', inner', rfl, ho', hinner', houter'⟩ := ih _ (by omega) hfront rfl
        rw [List.length_append, List.length_cons] at hn
        obtain ⟨outer, inner, rfl, ho, hinner, houter⟩ := ih _ (by omega) houter' rfl
        refine ⟨outer, inner ++ c :: (inner' ++ [t]), by simp, ho, ?_, houter⟩
        exact hinner.append (hinner'.enclosed ho' hc hk)
      · obtain ⟨outer, inner, rfl, ho, hinner, houter⟩ := ih _ (by omega) hfront rfl
        exact ⟨outer, inner ++ [t], by simp, ho, hinner.append (nested_plain hp), houter⟩

theorem nearestOpen_iff (h : openAfter [] before = some stack) :
    NearestOpen before b ↔ stack.head? = some b := by
  constructor
  · rintro ⟨ho, outer, inner, rfl, hinner⟩
    rw [openAfter_append] at h
    obtain ⟨stack', -, h⟩ := Option.bind_eq_some_iff.1 h
    rw [openAfter, bracketsAfter_opens stack' ho, Option.bind_some,
      (bracketWord_iff.1 hinner).openAfter_eq] at h
    rw [← Option.some.inj h, List.head?_cons]
  · intro hhead
    cases stack with
    | nil => cases hhead
    | cons b' stack =>
      obtain rfl := Option.some.inj hhead
      obtain ⟨outer, inner, rfl, ho, hinner, -⟩ := exists_inner_of_open h
      exact ⟨ho, outer, inner, rfl, bracketWord_iff.2 hinner⟩

theorem unpaired_iff (h : openAfter [] before = some stack) :
    Unpaired before t ↔ bracketsAfter stack t = none := by
  simp only [Unpaired, nearestOpen_iff h]
  unfold bracketsAfter
  cases hc : t.closes with
  | false => split <;> simp
  | true =>
    rw [if_neg (by simp [not_opens_of_closes hc]), if_pos rfl]
    cases stack with
    | nil => simp
    | cons b outer => simp

/-- The scan goes to the end exactly if every closing bracket is paired. -/
theorem paired_iff : Paired span ↔ ∃ stack, openAfter [] span = some stack := by
  constructor
  · intro h
    induction span using List.reverseRecOn with
    | nil => exact ⟨[], rfl⟩
    | append_singleton front t ih =>
      obtain ⟨stack, hfront⟩ := ih fun before c behind heq =>
        h before c (behind ++ [t]) (by rw [heq, List.append_assoc]; rfl)
      have ht := h front t [] rfl
      rw [unpaired_iff hfront] at ht
      obtain ⟨stack', hstack'⟩ := Option.ne_none_iff_exists'.1 ht
      exact ⟨stack', by rw [openAfter_append, hfront, Option.bind_some, openAfter, hstack']; rfl⟩
  · rintro ⟨stack, h⟩ before t behind rfl
    rw [openAfter_append] at h
    obtain ⟨stack', hbefore, h⟩ := Option.bind_eq_some_iff.1 h
    obtain ⟨stack'', ht, -⟩ := Option.bind_eq_some_iff.1 h
    rw [unpaired_iff hbefore, ht]
    exact Option.some_ne_none _

/-! ### The scan -/

/-- The scan goes on as long as a token can be read, and reports the one that cannot. -/
theorem firstUnmatched_cons (stack : List Token) (t : Token) (behind : List Token) :
    firstUnmatched stack (t :: behind) =
      (bracketsAfter stack t).elim (some t) fun open' => firstUnmatched open' behind := by
  rw [firstUnmatched.eq_def]
  simp only
  unfold bracketsAfter
  split
  · rfl
  · split
    · cases stack with
      | nil => rfl
      | cons b outer =>
        simp only
        split <;> rfl
    · rfl

theorem firstUnmatched_append (h : openAfter stack before = some w) :
    firstUnmatched stack (before ++ behind) = firstUnmatched w behind := by
  induction before generalizing stack with
  | nil => rw [Option.some.inj h]; rfl
  | cons t rest ih =>
    obtain ⟨open', ht, hrest⟩ := Option.bind_eq_some_iff.1 h
    rw [List.cons_append, firstUnmatched_cons, ht, Option.elim_some, ih hrest]

/-- The first token that the scan cannot go on with. -/
theorem exists_stuck (h : openAfter stack span = none) :
    ∃ before t behind stack', span = before ++ t :: behind ∧
      openAfter stack before = some stack' ∧ bracketsAfter stack' t = none := by
  induction span generalizing stack with
  | nil => cases h
  | cons t rest ih =>
    cases ht : bracketsAfter stack t with
    | none => exact ⟨[], t, rest, stack, rfl, rfl, ht⟩
    | some open' =>
      rw [openAfter, ht, Option.bind_some] at h
      obtain ⟨before, t', behind, stack', rfl, hbefore, ht'⟩ := ih h
      exact ⟨t :: before, t', behind, stack', rfl, by rw [openAfter, ht]; exact hbefore, ht'⟩

theorem Blamed.firstUnmatched_eq (h : Blamed span t) : firstUnmatched [] span = some t := by
  cases h with
  | closing behind h ht =>
    obtain ⟨stack, hstack⟩ := paired_iff.1 h
    rw [firstUnmatched_append hstack, firstUnmatched_cons, (unpaired_iff hstack).1 ht]
    rfl
  | leftOpen h ht =>
    obtain ⟨stack, hstack⟩ := paired_iff.1 h
    rw [← List.append_nil span, firstUnmatched_append hstack]
    exact (nearestOpen_iff hstack).1 ht

/-- The scan reports the bracket that is to blame. -/
theorem blamed_iff : Blamed span t ↔ firstUnmatched [] span = some t := by
  refine ⟨Blamed.firstUnmatched_eq, fun h => ?_⟩
  cases hopen : openAfter [] span with
  | some stack =>
    rw [← List.append_nil span, firstUnmatched_append hopen] at h
    exact .leftOpen (paired_iff.2 ⟨stack, hopen⟩) ((nearestOpen_iff hopen).2 h)
  | none =>
    obtain ⟨before, t', behind, stack, rfl, hbefore, ht'⟩ := exists_stuck hopen
    have hblamed : Blamed (before ++ t' :: behind) t' :=
      .closing behind (paired_iff.2 ⟨stack, hbefore⟩) ((unpaired_iff hbefore).2 ht')
    obtain rfl := Option.some.inj (hblamed.firstUnmatched_eq.symm.trans h)
    exact hblamed

/-! ### No other blame -/

/-- The error is a report of a bracket. -/
def ParseError.isUnbalanced : ParseError → Bool
  | .unbalanced _ _ => true
  | _ => false

/-- No bracket is reported. -/
def Blameless {α : Type} (x : Except ParseError α) : Prop :=
  ∀ text position, x ≠ .error (.unbalanced text position)

section
variable {α β : Type} {x : Except ParseError α}

theorem blameless_ok (a : α) : Blameless (.ok a : Except ParseError α) := by
  intro text position h
  cases h

theorem blameless_error {e : ParseError} (h : e.isUnbalanced = false) :
    Blameless (.error e : Except ParseError α) := by
  intro text position he
  obtain rfl := Except.error.inj he
  cases h

theorem Blameless.bind {f : α → Except ParseError β} (h : Blameless x) (hf : ∀ a, Blameless (f a)) :
    Blameless (x >>= f) := by
  cases x with
  | error e => exact fun text position he => h text position (congrArg _ (Except.error.inj he))
  | ok a => exact hf a

theorem Blameless.map {f : α → β} (h : Blameless x) : Blameless (f <$> x) := by
  cases x with
  | error e => exact fun text position he => h text position (congrArg _ (Except.error.inj he))
  | ok a => exact blameless_ok (f a)

end

variable {literal : String → Except ParseError Template}

theorem blameless_parseAtom (hliteral : ∀ content, Blameless (literal content)) (t : Token) :
    Blameless (parseAtom literal t) := by
  unfold parseAtom
  split
  · exact blameless_ok _
  · split
    · exact blameless_ok _
    · exact blameless_error rfl
  · exact (hliteral _).map
  · exact blameless_error rfl

theorem blameless_readBinding (clause : List Token) : Blameless (readBinding clause) := by
  unfold readBinding
  split
  · exact blameless_error rfl
  · split
    · split
      · exact blameless_error rfl
      · split
        · exact blameless_error rfl
        · exact blameless_ok _
    · exact blameless_error rfl
  · exact blameless_error rfl

theorem blameless_resolve (name : String) (count : Nat) :
    Blameless (Builtin.resolve name count) := by
  unfold Builtin.resolve
  split
  · exact blameless_error rfl
  · split
    · exact blameless_ok _
    · exact blameless_error rfl

/-- Reading spans blames no bracket. -/
theorem blameless_parse (hliteral : ∀ content, Blameless (literal content)) :
    (∀ span, Blameless (parseSpan literal span)) ∧
    (∀ spans, Blameless (parseParts literal spans)) ∧
    (∀ bound clauses, Blameless (parseBindings literal bound clauses)) := by
  apply parseSpan.mutual_induct
  -- The forms that are refused.
  case case1 =>
    intro span hs
    rw [parseSpan_empty hs]
    exact blameless_error rfl
  case case2 =>
    intro span op operand hs hu
    rw [parseSpan_not_unary hs hu]
    exact blameless_error rfl
  case case6 =>
    intro span left op right hs _ hdot hwhere hb
    rw [parseSpan_not_binary hs hdot hwhere hb]
    exact blameless_error rfl
  case case11 =>
    intro span name inner hs _ hf
    rw [parseSpan_not_function hs hf]
    exact blameless_error rfl
  case case13 =>
    intro span hs
    rw [parseSpan_other hs]
    exact blameless_error rfl
  -- Spans with an operator to cut at.
  case case3 =>
    intro span op operand hs u hu _ ih
    rw [parseSpan_unary hs hu]
    exact ih.map
  case case4 =>
    intro span left op right hs _ hdot ihl ihr
    rw [parseSpan_member hs hdot]
    exact ihl.bind fun _ => ihr.bind fun _ => blameless_ok _
  case case5 =>
    intro span left op right hs _ hdot hwhere ihl ihr
    by_cases hright : right = []
    · subst hright
      rw [parseSpan_nothing_follows hs hwhere]
      exact ihl.bind fun _ => blameless_error rfl
    · rw [parseSpan_clauses hs hwhere hright]
      exact ihl.bind fun _ => ihr.bind fun _ => blameless_ok _
  case case7 =>
    intro span left op right hs _ _ _ b hb ihl ihr
    rw [parseSpan_binary hs hb]
    exact ihl.bind fun _ => ihr.bind fun _ => blameless_ok _
  -- Spans without one.
  case case8 =>
    intro span t hs
    rw [parseSpan_atom hs]
    exact blameless_parseAtom hliteral t
  case case9 =>
    intro span inner hs _ ih
    rw [parseSpan_group hs]
    exact ih
  case case10 =>
    intro span inner hs _ ih
    rw [parseSpan_list hs]
    exact ih.map
  case case12 =>
    intro span name inner hs _ hf ih
    obtain ⟨f, hf⟩ := Option.ne_none_iff_exists'.1 (by simpa using hf)
    rw [parseSpan_call hs hf]
    exact ih.bind fun _ => (blameless_resolve _ _).bind fun _ => blameless_ok _
  -- Parts between commas.
  case case14 =>
    rw [parseParts]
    exact blameless_ok _
  case case15 =>
    intro part spans ihe ihs
    rw [parseParts]
    exact ihe.bind fun _ => ihs.bind fun _ => blameless_ok _
  case case16 =>
    intro bound
    rw [parseBindings]
    exact blameless_ok _
  case case17 =>
    intro bound clause clauses err hread text position h
    rw [parseBindings_cons_of_error hread] at h
    exact blameless_readBinding clause text position (hread.trans (congrArg _ (Except.error.inj h)))
  case case18 =>
    intro bound clause clauses name value hread _ hbound
    rw [parseBindings_cons_of_mem hread (by simpa using hbound)]
    exact blameless_error rfl
  case case19 =>
    intro bound clause clauses name value hread _ hbound ihe ihs
    rw [parseBindings_cons_of_not_mem hread (by simpa using hbound)]
    exact ihe.bind fun _ => ihs.bind fun _ => blameless_ok _

/-- A fragment that does not parse is reported as such, whatever is wrong with it. -/
theorem blameless_compileFragments (compile : String → Except ParseError Expr) (start : Nat)
    (fragments : List (List Char × List Char)) :
    Blameless (Template.compileFragments compile start fragments) := by
  induction fragments generalizing start with
  | nil => exact blameless_ok _
  | cons fragment fragments ih =>
    obtain ⟨plain, fragment⟩ := fragment
    have hfragment : Blameless ((compile (String.ofList fragment)).mapError
        (.interpolation (String.ofList fragment))) := by
      cases compile (String.ofList fragment) with
      | error e => exact blameless_error rfl
      | ok e => exact blameless_ok _
    rw [Template.compileFragments]
    exact hfragment.bind fun _ => (ih _).bind fun _ => blameless_ok _

theorem blameless_template (content : String) : Blameless (Template.parse content) :=
  (blameless_compileFragments _ _ _).bind fun _ => blameless_ok _

/-- **A bracket is reported exactly where the brackets are not nested.** Then exactly one is
to blame, and it is the one that is reported, with its text and its place, whatever else is
wrong with the tokens. -/
theorem parseTokens_unbalanced (tokens : List Token) :
    ((∃ text position,
        parseTokens Template.parse tokens = .error (.unbalanced text position)) ↔
      ¬ BracketWord (brackets tokens)) ∧
    (¬ BracketWord (brackets tokens) → ∃! t, Blamed tokens t) ∧
    ∀ t, Blamed tokens t →
      parseTokens Template.parse tokens = .error (.unbalanced t.text t.offset) := by
  have hreport : ∀ t, Blamed tokens t →
      parseTokens Template.parse tokens = .error (.unbalanced t.text t.offset) := by
    intro t ht
    rw [parseTokens, blamed_iff.1 ht]
  have hunique : ¬ BracketWord (brackets tokens) → ∃! t, Blamed tokens t := by
    intro h
    rw [bracketWord_iff, nested_iff] at h
    obtain ⟨t, ht⟩ := Option.ne_none_iff_exists'.1 h
    refine ⟨t, blamed_iff.2 ht, fun t' ht' => ?_⟩
    exact Option.some.inj ((blamed_iff.1 ht').symm.trans ht)
  refine ⟨⟨?_, fun h => ?_⟩, hunique, hreport⟩
  · rintro ⟨text, position, herror⟩ h
    rw [parseTokens_of_nested (bracketWord_iff.1 h)] at herror
    exact (blameless_parse blameless_template).1 tokens text position herror
  · obtain ⟨t, ht, -⟩ := hunique h
    exact ⟨t.text, t.offset, hreport t ht⟩

/-- In `([)` the closing bracket is to blame, though two stay open; and not the operators. -/
example : parseTokens Template.parse [⟨.openParen, "(", 0⟩, ⟨.operator, "*", 1⟩,
    ⟨.openBracket, "[", 2⟩, ⟨.operator, "*", 3⟩, ⟨.closeParen, ")", 4⟩] =
      .error (.unbalanced ")" 4) := rfl

end Formulary
