import Formulary.Formula
import Formulary.Proofs.Finding

/-! Values come back from their source.

The source of a value is an operand (`finds_of_source`): a token, a number under a minus, or
a span in brackets. The lexer finds its tokens whatever follows, as long as no digit does,
and its tree evaluates to the value in every scope, so the sources of the elements can stand
side by side in the source of a list. `ofSource_source`: the values that have a source are
those without objects and without texts that hold a quote or an opening brace, and read
back the source gives the value. -/
namespace Formulary

/-! ### Values of trees -/

/-- The tree has the same value in every scope, and finding it changes nothing. -/
def Expr.Denotes (e : Expr) (v : Value) : Prop :=
  ∀ scope, e.eval scope = pure v

namespace Expr.Denotes

theorem integer (n : Int64) : (Expr.integer n).Denotes (.integer n) := fun scope => by
  rw [Expr.eval]

theorem negate {e : Expr} {a b : Int64} (h : e.Denotes (.integer a)) (hb : b.toInt = -a.toInt) :
    (Expr.unary .negate e).Denotes (.integer b) := by
  intro scope
  rw [Expr.eval, h scope, pure_bind]
  show (Value.integer <$> Run.narrow .negation (-a.toInt) : Run Value) = _
  rw [← hb, Run.narrow_toInt, map_pure]

theorem subtract {e e' : Expr} {a b c : Int64} (h : e.Denotes (.integer a))
    (h' : e'.Denotes (.integer b)) (hc : c.toInt = a.toInt - b.toInt) :
    (Expr.binary .subtract e e').Denotes (.integer c) := by
  intro scope
  rw [Expr.eval, h scope, h' scope, pure_bind, pure_bind]
  show (Value.integer <$> Run.narrow _ (a.toInt - b.toInt) : Run Value) = _
  rw [← hc, Run.narrow_toInt, map_pure]

theorem text (s : String) : (Expr.text s []).Denotes (.text s) := fun scope => by
  simp [Expr.eval, Expr.insertMeanings, splice]

theorem list {es : List Expr} {vs : List Value} (h : List.Forall₂ Expr.Denotes es vs) :
    (Expr.list es).Denotes (.list vs) := by
  intro scope
  have hitems : (Expr.meanings es).mapM (· scope) = (pure vs : Run (List Value)) := by
    induction h with
    | nil => rfl
    | cons he _ ih => simp [Expr.meanings, he scope, ih]
  rw [Expr.eval, hitems]
  simp

end Expr.Denotes

/-! ### Operands for values -/

/-- At the head of the text the lexer finds an operand that stands for the value, and
nothing of what follows. -/
def Finds (l : Lexer) (v : Value) (rest : List Char) : Prop :=
  FindsOperand l (·.Denotes v) rest

/-- At the head of the text the lexer finds what stands in a list of the values. -/
def FindsItems (l : Lexer) (items : List Value) (rest : List Char) : Prop :=
  FindsOperands l (List.Forall₂ Expr.Denotes · items) rest

section
variable {l : Lexer} {rest : List Char}

theorem finds_natural {n : Int64} {k : Nat} (hn : n.toInt = k)
    (hl : l.rest = k.repr.toList ++ rest) (hrest : EndsDigits rest) :
    Finds l (.integer n) rest :=
  (findsAtom_natural hn hl hrest (.integer n)).operand

/-- The operand `-n`. -/
def Operand.ofNegation (n position position' : Nat) (h : Word.Fits n) : Operand Template.parse where
  prefixes := [⟨⟨.operator, "-", position⟩, .negate, rfl, rfl⟩]
  atom := .ofNat n position' h

theorem finds_negative {n : Int64} {k : Nat} (hn : n.toInt = -k) (hfits : Word.Fits k)
    (hl : l.rest = '-' :: (k.repr.toList ++ rest)) (hrest : EndsDigits rest) :
    Finds l (.integer n) rest := by
  obtain ⟨p, hpass⟩ := (Lexer.Passes.start hl).single rfl (by decide) (by decide)
  obtain ⟨p', hpass⟩ := hpass.digits hrest
  refine ⟨.ofNegation k l.position p hfits, _, hpass, ?_⟩
  refine Expr.Denotes.negate (.integer (Int64.ofInt k)) ?_
  rw [Word.toInt_ofInt hfits, hn]

/-- The chain `-a-b`. -/
def Chain.ofDifference (a b p₁ p₂ p₃ p₄ : Nat) (ha : Word.Fits a) (hb : Word.Fits b) :
    Chain Template.parse where
  head := .ofNegation a p₁ p₂ ha
  links := [(⟨⟨.operator, "-", p₃⟩, .binary .subtract, rfl, rfl⟩, ⟨[], .ofNat b p₄ hb⟩)]

theorem Chain.climb_ofDifference (a b p₁ p₂ p₃ p₄ : Nat) (ha : Word.Fits a) (hb : Word.Fits b) :
    (ofDifference a b p₁ p₂ p₃ p₄ ha hb).climb.1 =
      .binary .subtract (.unary .negate (.integer (Int64.ofInt a))) (.integer (Int64.ofInt b)) := by
  rw [climb_eq]
  show climbed 0 [.negate] (.integer (Int64.ofInt a))
    ([] ++ ⟨.binary .subtract, [], .integer (Int64.ofInt b)⟩ :: []) = _
  have hlead : ∀ u ∈ [UnaryOp.negate].head?,
      (Joint.binary .subtract).strength ≤ u.strength := by decide
  rw [climbed_append_cons ⟨by simp, by simp⟩ hlead, climbed_no_links, climbed_no_links]
  rfl

/-- A difference in parentheses, as the least integer is written. -/
theorem finds_difference {n : Int64} {a b : Nat} (hn : n.toInt = -a - b) (ha : Word.Fits a)
    (hb : Word.Fits b)
    (hl : l.rest = '(' :: '-' :: (a.repr.toList ++ '-' :: (b.repr.toList ++ ')' :: rest))) :
    Finds l (.integer n) rest := by
  refine (findsAtom_group hl fun p => ?_).operand
  let inner : Lexer := ⟨'-' :: (a.repr.toList ++ '-' :: (b.repr.toList ++ ')' :: rest)), p⟩
  obtain ⟨p₂, hpass⟩ := (Lexer.Passes.start (l := inner) rfl).single rfl (by decide) (by decide)
  obtain ⟨p₃, hpass⟩ := hpass.digits (endsDigits_cons rfl _)
  obtain ⟨p₄, hpass⟩ := hpass.single rfl (by decide) (by decide)
  obtain ⟨p₅, hpass⟩ := hpass.digits (endsDigits_cons rfl _)
  let chain := Chain.ofDifference a b p p₂ p₃ p₄ ha hb
  have hparse := chain.parseSpan_chain
  rw [Chain.climb_ofDifference] at hparse
  refine ⟨chain.tokens, _, p₅, hpass, chain.nested, hparse, ?_⟩
  have ha' : Word.Fits (-a : Int) := by
    simp only [Word.Fits, Word.least, Word.greatest] at ha ⊢
    omega
  have hneg : (Expr.unary .negate (.integer (Int64.ofInt a))).Denotes
      (.integer (Int64.ofInt (-a))) :=
    .negate (.integer _) (by rw [Word.toInt_ofInt ha', Word.toInt_ofInt ha])
  exact hneg.subtract (.integer _) (by rw [hn, Word.toInt_ofInt ha', Word.toInt_ofInt hb])

theorem toList_source_least :
    s!"({Word.least + 1}-1)".toList =
      '(' :: '-' :: ((9223372036854775807 : Nat).repr.toList ++ '-' ::
        ((1 : Nat).repr.toList ++ [')'])) := by
  cbv

theorem finds_integer {n : Int64} {s : String} (h : (Value.integer n).source = .ok s)
    (hl : l.rest = s.toList ++ rest) (hrest : EndsDigits rest) : Finds l (.integer n) rest := by
  rw [Value.source] at h
  obtain rfl := Except.ok.inj h
  have hfits := Word.fits_toInt n
  split at hl
  · next hleast =>
    rw [toList_source_least] at hl
    refine finds_difference (a := 9223372036854775807) (b := 1) ?_ (by decide) (by decide)
      (by simpa using hl)
    rw [hleast]
    rfl
  · next hleast =>
    simp only [Word.Fits, Word.least, Word.greatest] at hfits hleast
    rw [Int.toString_eq_repr, Int.repr_eq_if] at hl
    split at hl
    · next hpos => exact finds_natural (Int.toNat_of_nonneg hpos).symm hl hrest
    · next hneg =>
      have hk : ((-n.toInt).toNat : Int) = -n.toInt := Int.toNat_of_nonneg (by omega)
      refine finds_negative (k := (-n.toInt).toNat) (by omega) ?_ (by simpa using hl) hrest
      simp only [Word.Fits, Word.least, Word.greatest]
      omega

end

/-! ### Reading back -/

/-- The values that have a source: no object and no text with a quote or an opening brace
is anywhere in them. -/
inductive Value.Writable : Value → Prop where
  | integer (n : Int64) : Writable (.integer n)
  | text {s : String} (hquote : '\'' ∉ s.toList) (hbrace : '{' ∉ s.toList) : Writable (.text s)
  | list {items : List Value} (h : ∀ v ∈ items, Writable v) : Writable (.list items)

theorem source_text_eq_ok_iff {s source : String} :
    (Value.text s).source = .ok source ↔
      ('\'' ∉ s.toList ∧ '{' ∉ s.toList) ∧ "'" ++ s ++ "'" = source := by
  have hany : s.toList.any (fun c => c = '\'' || c = '{') = true ↔
      ¬('\'' ∉ s.toList ∧ '{' ∉ s.toList) := by
    rw [List.any_eq_true, ← Decidable.or_iff_not_not_and_not]
    simp only [Bool.or_eq_true, decide_eq_true_eq]
    constructor
    · rintro ⟨c, hc, rfl | rfl⟩
      · exact .inl hc
      · exact .inr hc
    · rintro (hc | hc)
      · exact ⟨_, hc, .inl rfl⟩
      · exact ⟨_, hc, .inr rfl⟩
  rw [Value.source]
  by_cases hs : '\'' ∉ s.toList ∧ '{' ∉ s.toList
  · rw [if_neg (by rw [hany]; exact not_not_intro hs)]
    simp [hs]
  · rw [if_pos (hany.2 hs)]
    simp [hs]

theorem source_list_eq_ok_iff {items : List Value} {source : String} :
    (Value.list items).source = .ok source ↔
      ∃ ss, Value.sourceItems items = .ok ss ∧ "[" ++ ",".intercalate ss ++ "]" = source := by
  rw [Value.source, bind_eq_ok_iff]
  simp [pure, Except.pure]

theorem sourceItems_cons_eq_ok_iff {v : Value} {items : List Value} {ss : List String} :
    Value.sourceItems (v :: items) = .ok ss ↔
      ∃ s rest, v.source = .ok s ∧ Value.sourceItems items = .ok rest ∧ s :: rest = ss := by
  rw [Value.sourceItems, bind_eq_ok_iff]
  simp only [bind_eq_ok_iff, pure, Except.pure, Except.ok.injEq]
  constructor
  · rintro ⟨s, hs, rest, hrest, rfl⟩
    exact ⟨s, rest, hs, hrest, rfl⟩
  · rintro ⟨s, rest, hs, hrest, rfl⟩
    exact ⟨s, hs, rest, hrest, rfl⟩

mutual

theorem exists_source_iff (v : Value) : (∃ s, v.source = .ok s) ↔ v.Writable := by
  cases v with
  | integer n => exact ⟨fun _ => .integer n, fun _ => ⟨_, Value.source.eq_1 n⟩⟩
  | text s =>
    constructor
    · rintro ⟨source, h⟩
      obtain ⟨⟨hquote, hbrace⟩, -⟩ := source_text_eq_ok_iff.1 h
      exact .text hquote hbrace
    · rintro (_ | ⟨hquote, hbrace⟩)
      exact ⟨_, source_text_eq_ok_iff.2 ⟨⟨hquote, hbrace⟩, rfl⟩⟩
  | list items =>
    have hitems := exists_sourceItems_iff items
    constructor
    · rintro ⟨source, h⟩
      obtain ⟨ss, hss, -⟩ := source_list_eq_ok_iff.1 h
      exact .list (hitems.1 ⟨ss, hss⟩)
    · rintro (_ | _ | h)
      obtain ⟨ss, hss⟩ := hitems.2 h
      exact ⟨_, source_list_eq_ok_iff.2 ⟨ss, hss, rfl⟩⟩
  | object identity attributes => exact ⟨fun ⟨_, h⟩ => (nomatch h), fun h => (nomatch h)⟩

theorem exists_sourceItems_iff (items : List Value) :
    (∃ ss, Value.sourceItems items = .ok ss) ↔ ∀ v ∈ items, v.Writable := by
  cases items with
  | nil => simp [Value.sourceItems]
  | cons v rest =>
    rw [List.forall_mem_cons, ← exists_source_iff v, ← exists_sourceItems_iff rest]
    constructor
    · rintro ⟨ss, h⟩
      obtain ⟨s, ss, hs, hss, -⟩ := sourceItems_cons_eq_ok_iff.1 h
      exact ⟨⟨s, hs⟩, ⟨ss, hss⟩⟩
    · rintro ⟨⟨s, hs⟩, ⟨ss, hss⟩⟩
      exact ⟨_, sourceItems_cons_eq_ok_iff.2 ⟨s, ss, hs, hss, rfl⟩⟩

end

mutual

theorem finds_of_source (v : Value) {s : String} (h : v.source = .ok s) {l : Lexer}
    {rest : List Char} (hl : l.rest = s.toList ++ rest) (hrest : EndsDigits rest) :
    Finds l v rest := by
  cases v with
  | integer n => exact finds_integer h hl hrest
  | text t =>
    obtain ⟨⟨hquote, hbrace⟩, rfl⟩ := source_text_eq_ok_iff.1 h
    exact (findsAtom_text hquote hbrace hl (.text t)).operand
  | list items =>
    obtain ⟨ss, hss, rfl⟩ := source_list_eq_ok_iff.1 h
    have hl' : l.rest = '[' :: ((",".intercalate ss).toList ++ ']' :: rest) := by
      simpa using hl
    have hitems (p : Nat) := finds_items_of_source items hss (l := ⟨_, p⟩) rfl
      (endsDigits_cons (c := ']') rfl rest)
    exact (findsAtom_list hl' hitems fun _ => .list).operand
  | object identity attributes => cases h

theorem finds_items_of_source (items : List Value) {ss : List String}
    (h : Value.sourceItems items = .ok ss) {l : Lexer} {rest : List Char}
    (hl : l.rest = (",".intercalate ss).toList ++ rest) (hrest : EndsDigits rest) :
    FindsItems l items rest := by
  cases items with
  | nil =>
    obtain rfl := Except.ok.inj h
    exact findsOperands_nil (by simpa using hl) .nil
  | cons v items =>
    obtain ⟨s, ss, hs, hss, rfl⟩ := sourceItems_cons_eq_ok_iff.1 h
    cases items with
    | nil =>
      obtain rfl := Except.ok.inj hss
      rw [String.intercalate_singleton] at hl
      exact findsOperands_singleton (finds_of_source v hs hl hrest) fun _ hv => .cons hv .nil
    | cons w items =>
      obtain ⟨s', ss', -, -, rfl⟩ := sourceItems_cons_eq_ok_iff.1 hss
      have hl' : l.rest = s.toList ++ ',' :: ((",".intercalate (s' :: ss')).toList ++ rest) := by
        rw [hl, String.intercalate_cons_cons]
        simp
      have hitems (p : Nat) := finds_items_of_source (w :: items) hss (l := ⟨_, p⟩) rfl hrest
      exact findsOperands_cons (finds_of_source v hs hl' (endsDigits_cons rfl _)) hitems
        (fun h => nomatch h) fun _ _ => .cons

end

/-- The tokens of a source are an operand for the value. -/
theorem parse_source {v : Value} {s : String} (h : v.source = .ok s) :
    ∃ e, parse s = .ok e ∧ e.Denotes v := by
  have hl : (Lexer.ofString s).rest = s.toList ++ [] := (List.append_nil _).symm
  exact (finds_of_source v h hl fun c hc => nomatch hc).span.exists_parse

/-- **A value has a source exactly if nothing in it cannot be written, and read back its
source gives the value**, in every world and without changing it. -/
theorem ofSource_source (v : Value) :
    ((∃ s, v.source = .ok s) ↔ v.Writable) ∧
      ∀ s, v.source = .ok s → ∀ world : World,
        (Value.ofSource s).run.run world = (.ok v, world) := by
  refine ⟨exists_source_iff v, fun s h world => ?_⟩
  obtain ⟨e, hparse, hv⟩ := parse_source h
  have hcompile : Formula.compile s = .ok ⟨s, e⟩ := by
    rw [Formula.compile, hparse]
    rfl
  have hrun : Formula.run ⟨s, e⟩ Environment.empty.toObject = pure v := hv _
  rw [Value.ofSource, hcompile]
  simp only [hrun]
  rfl

/-- Nested lists, with the least integer. -/
theorem ofSource_nested_list :
    Value.source (.list [.integer Int64.minValue, .list [.text "d", .integer (-17)], .list []]) =
        .ok "[(-9223372036854775807-1),['d',-17],[]]" ∧
      ∀ world : World, (Value.ofSource "[(-9223372036854775807-1),['d',-17],[]]").run.run world =
        (.ok (.list [.integer Int64.minValue, .list [.text "d", .integer (-17)], .list []]),
          world) := by
  have h : Value.source
      (.list [.integer Int64.minValue, .list [.text "d", .integer (-17)], .list []]) =
        .ok "[(-9223372036854775807-1),['d',-17],[]]" := by
    cbv
  exact ⟨h, (ofSource_source _).2 _ h⟩

end Formulary
