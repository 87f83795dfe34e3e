import Formulary.Proofs.Positions
import Formulary.Proofs.Slices
import Formulary.Proofs.Splicing
import Mathlib

/-! Reading with every step checked.

The parser takes spans apart by their constructors, so none of its steps can go wrong. Here
the same reading is made of steps that can (`Steps`): tokens are sliced off their text, a
span is taken apart by positions (`shape?`, `splitCommas?`), a text is cut between bytes, and
a span is handed on to be read only if it is shorter than the one it is a part of, and nested
(`handOn?`).

No step goes wrong (`no_step_misses`). One condition is on the tokens: a text token has to
begin and end with characters of one byte, between which its content stands. All text tokens
of a source do. -/
namespace Formulary

namespace Checked

/-! ### Steps -/

abbrev Reading := Steps ParseError

/-- A span that may be handed on to be read: it is shorter than the span around it, and
nested. -/
def handOn? (span sub : List Token) : Option {inner : List Token // inner.length < span.length} :=
  if h : sub.length < span.length ∧ Nested sub then some ⟨sub, h.1⟩ else none

def atom (literal : String → Reading Template) (t : Token) : Reading Expr :=
  match t.kind with
  | .word => return .name t.text
  | .integer =>
    match integer? t.text with
    | some n => return .integer n
    | none => throw (.notAnInteger t.text)
  | .text => do
    let last ← (Text.byteLength t.text.toList).psub 1
    let content ← Text.slice? t.text 1 last
    let template ← literal content
    return template.toExpr
  | _ => throw (.unparseable t.text)

section
variable (read : List Token → Reading Expr)

/-- The expressions between the commas of a span. -/
def arguments (span : List Token) : Reading (List Expr) :=
  if span.isEmpty then return []
  else do
    let parts ← splitCommas? span
    parts.mapM read

def bindingsFrom : List String → List (List Token) → Reading (List (String × Expr))
  | _, [] => return []
  | bound, clause :: rest => do
    let binding ← ofExcept (readBinding clause)
    if bound.contains binding.1 then throw (.duplicateBinding binding.1)
    let e ← read binding.2
    let bindings ← bindingsFrom (binding.1 :: bound) rest
    return (binding.1, e) :: bindings

/-- The bindings between the commas of a span. -/
def bindings (span : List Token) : Reading (List (String × Expr)) :=
  if span.isEmpty then throw (.malformedWhere .nothingFollows)
  else do
    let clauses ← splitCommas? span
    bindingsFrom read [] clauses

/-- What a span is read as, by its form. -/
def form (literal : String → Reading Template) (span : List Token) : Shape → Reading Expr
  | .empty => throw .emptyExpression
  | .unary op operand =>
    match UnaryOp.ofSymbol? op.text with
    | none => throw (.notUnary op.text)
    | some u => return .unary u (← read operand)
  | .binary left op right =>
    if op.text = "." then return .member (← read left) (← read right)
    else if op.text = "where" then do
      let body ← read left
      let clauses ← handOn? span right
      return .clauses body (← bindings read clauses)
    else match BinaryOp.ofSymbol? op.text with
      | none => throw (.notBinary op.text)
      | some b => return .binary b (← read left) (← read right)
  | .atom t => atom literal t
  | .group inner => read inner
  | .list inner => do
    let items ← handOn? span inner
    return .list (← arguments read items)
  | .call name inner =>
    if (Builtin.ofName? name.text).isNone then throw (.unknownFunction name.text)
    else do
      let inner ← handOn? span inner
      let arguments ← arguments read inner
      return .call (← ofExcept (Builtin.resolve name.text arguments.length)) arguments
  | .other => throw (.unparseable (joinTexts span))

end

/-- The expression of a span. -/
def expression (literal : String → Reading Template) (span : List Token) : Reading Expr := do
  let shape ← shape? span
  form (fun sub => do
    let inner ← handOn? span sub
    expression literal inner) literal span shape
termination_by span.length
decreasing_by exact inner.2

/-- The expression of a whole token list. -/
def parseTokens (literal : String → Reading Template) (tokens : List Token) : Reading Expr :=
  match firstUnmatched [] tokens with
  | some bracket => throw (.unbalanced bracket.text bracket.offset)
  | none => expression literal tokens

def source (literal : String → Reading Template) (text : String) : Reading Expr := do
  let tokens ← (tokensFrom text 0).adapt .lexical
  parseTokens literal tokens

/-- Where a fragment stands in a text: from its opening brace up to the byte behind the
closing one. -/
structure Place where
  opening : Nat
  behind : Nat
  fragment : String

/-- The places of fragments with plain texts before them, the first of which begins at a byte. -/
def places : Nat → List (List Char × List Char) → List Place
  | _, [] => []
  | start, (plain, fragment) :: rest =>
    let opening := start + Text.byteLength plain
    let behind := opening + Text.byteLength ('{' :: (fragment ++ ['}']))
    ⟨opening, behind, String.ofList fragment⟩ :: places behind rest

/-- The template of a text from a byte on. `text` and `inserts` are what comes before. -/
def templateFrom (compile : String → Reading Expr) (content : String) :
    Nat → String → List (Nat × Expr) → List Place → Reading Template
  | copied, text, inserts, [] => do
    let tail ← Text.slice? content copied (Text.byteLength content.toList)
    return ⟨text ++ tail, inserts⟩
  | copied, text, inserts, place :: rest => do
    let plain ← Text.slice? content copied place.opening
    let e ← (compile place.fragment).adapt (.interpolation place.fragment)
    let text := text ++ plain
    templateFrom compile content place.behind text ((Text.byteLength text.toList, e) :: inserts) rest

/-- A text that may be read inside another: it is shorter. -/
def shorter? (content inner : String) : Option {inner : String // inner.length < content.length} :=
  if h : inner.length < content.length then some ⟨inner, h⟩ else none

/-- The template that the content of a text token stands for. -/
def literal (content : String) : Reading Template :=
  templateFrom (source fun inner => do
    let inner ← shorter? content inner
    literal inner) content 0 "" [] (places 0 (Pieces.cut content.toList).fragments)
termination_by content.length
decreasing_by exact inner.2

/-! ### No step goes wrong -/

variable {literal' : String → Reading Template} {literal : String → Except ParseError Template}
  {read : List Token → Reading Expr} {span sub : List Token}

theorem handOn?_eq (hshorter : sub.length < span.length) (h : Nested sub) :
    handOn? span sub = some ⟨sub, hshorter⟩ :=
  dif_pos ⟨hshorter, h⟩

/-- The text tokens of a span are delimited, and a reading of their contents comes to what
another one gives that is not checked. -/
def Readable (literal' : String → Reading Template) (literal : String → Except ParseError Template)
    (span : List Token) : Prop :=
  ∀ t ∈ span, t.kind = .text →
    Text.Delimited t.text ∧ (literal' (unquote t.text)).run = some (literal (unquote t.text))

theorem Readable.subset {inner : List Token} (h : Readable literal' literal span)
    (hsub : inner ⊆ span) : Readable literal' literal inner :=
  fun t ht => h t (hsub ht)

theorem atom_eq {t : Token} (h : Readable literal' literal [t]) :
    (atom literal' t).run = some (parseAtom literal t) := by
  unfold atom parseAtom
  cases hkind : t.kind with
  | text =>
    obtain ⟨hdelimited, hliteral⟩ := h t (List.mem_singleton_self t) hkind
    have hlast : (Text.byteLength t.text.toList).psub 1 =
        some (Text.byteLength t.text.toList - 1) :=
      Nat.psub_eq_sub (Nat.le_of_succ_le hdelimited.two_le)
    dsimp only
    rw [run_step hlast, run_step hdelimited.slice?_eq]
    exact run_map_eq _ hliteral
  | integer => cases integer? t.text <;> rfl
  | _ => rfl

/-! Parts between commas. -/

theorem mapM_eq {spans : List (List Token)}
    (h : ∀ part ∈ spans, (read part).run = some (parseSpan literal part)) :
    (spans.mapM read).run = some (parseParts literal spans) := by
  induction spans with
  | nil =>
    rw [parseParts]
    rfl
  | cons part spans ih =>
    obtain ⟨hpart, hspans⟩ := List.forall_mem_cons.1 h
    rw [List.mapM_cons, parseParts]
    exact run_bind_eq hpart fun _ => run_bind_eq (ih hspans) fun _ => rfl

theorem arguments_eq (h : Nested span)
    (hread : ∀ part ∈ parts span, (read part).run = some (parseSpan literal part)) :
    (arguments read span).run = some (parseParts literal (parts span)) := by
  unfold arguments parts at *
  split
  · rw [parseParts]
    rfl
  · next hne =>
    rw [if_neg hne] at hread
    rw [run_step (splitCommas?_eq h)]
    exact mapM_eq hread

theorem bindingsFrom_eq {bound : List String} {clauses : List (List Token)}
    (h : ∀ clause ∈ clauses, ∀ name value, readBinding clause = .ok (name, value) →
      (read value).run = some (parseSpan literal value)) :
    (bindingsFrom read bound clauses).run = some (parseBindings literal bound clauses) := by
  induction clauses generalizing bound with
  | nil =>
    rw [parseBindings]
    rfl
  | cons clause clauses ih =>
    obtain ⟨hclause, hclauses⟩ := List.forall_mem_cons.1 h
    rw [bindingsFrom, ExceptT.run_bind, run_ofExcept]
    cases hread : readBinding clause with
    | error e =>
      rw [parseBindings_cons_of_error hread]
      rfl
    | ok binding =>
      obtain ⟨name, value⟩ := binding
      by_cases hbound : name ∈ bound
      · rw [parseBindings_cons_of_mem hread hbound]
        show ExceptT.run (if bound.contains name then _ else _) = _
        rw [if_pos (by simpa using hbound)]
        rfl
      · rw [parseBindings_cons_of_not_mem hread hbound]
        show ExceptT.run (if bound.contains name then _ else _) = _
        rw [if_neg (by simpa using hbound)]
        exact run_bind_eq (hclause name value hread) fun _ => run_bind_eq (ih hclauses) fun _ => rfl

theorem nested_of_readBinding {clause value : List Token} {name : String}
    (hread : readBinding clause = .ok (name, value)) (h : Nested clause) : Nested value := by
  obtain ⟨word, equal, rfl, -, hword, -, hequal, -⟩ := readBinding_eq_ok hread
  exact nested_value h hword hequal

theorem bindings_eq (h : Nested span) (hne : span ≠ [])
    (hread : ∀ clause ∈ parts span, ∀ name value, readBinding clause = .ok (name, value) →
      (read value).run = some (parseSpan literal value)) :
    (bindings read span).run = some (parseBindings literal [] (parts span)) := by
  have hempty : ¬ span.isEmpty = true := by simpa using hne
  rw [parts, if_neg hempty] at hread ⊢
  rw [bindings, if_neg hempty, run_step (splitCommas?_eq h)]
  exact bindingsFrom_eq hread

theorem length_lt_partsSize {part : List Token} {spans : List (List Token)} (h : part ∈ spans) :
    part.length < partsSize spans := by
  induction spans with
  | nil => cases h
  | cons first spans ih =>
    rw [partsSize]
    rcases List.mem_cons.1 h with rfl | h
    · omega
    · have := ih h
      omega

/-- A part of a span is no longer than the span. -/
theorem length_le_of_mem_parts {part : List Token} (h : part ∈ parts span) :
    part.length ≤ span.length :=
  Nat.le_of_lt_succ (Nat.lt_of_lt_of_le (length_lt_partsSize h) (partsSize_parts span))

/-- A span is read as its form says, if the spans inside it are. -/
theorem form_eq {shape : Shape} (hs : Shape.of span = shape) (h : Nested span)
    (hreadable : Readable literal' literal span)
    (hread : ∀ sub, sub.length < span.length → Nested sub → sub ⊆ span →
      (read sub).run = some (parseSpan literal sub)) :
    (form read literal' span shape).run = some (parseSpan literal span) := by
  have hcovers : shape.Covers span := hs ▸ Shape.covers_of h
  have hwithin : shape.Within span.length := hs ▸ Shape.within_of span
  have hinner : shape.inner ⊆ span := hs ▸ Shape.inner_subset span
  have hparts {inner : List Token} (hin : Nested inner) (hlength : inner.length < span.length)
      (hsub : inner ⊆ span) :
      (arguments read inner).run = some (parseParts literal (parts inner)) := by
    refine arguments_eq hin fun part hpart => hread part ?_ (nested_of_parts hin part hpart) ?_
    · exact Nat.lt_of_le_of_lt (length_le_of_mem_parts hpart) hlength
    · exact List.Subset.trans (parts_subset inner part hpart) hsub
  cases shape with
  | empty =>
    rw [parseSpan_empty hs]
    rfl
  | unary op operand =>
    obtain ⟨-, -, hn⟩ := hcovers
    cases hu : UnaryOp.ofSymbol? op.text with
    | none =>
      rw [parseSpan_not_unary hs hu, form, hu]
      rfl
    | some u =>
      rw [parseSpan_unary hs hu, form, hu]
      exact run_map_eq _ (hread operand hwithin hn hinner)
  | binary left op right =>
    obtain ⟨-, -, hnl, hnr⟩ := hcovers
    have hright : right.length < span.length := Nat.lt_of_succ_lt hwithin.2
    have hsubr : right ⊆ span := List.Subset.trans (List.subset_append_right left right) hinner
    have hl := hread left hwithin.1 hnl (List.Subset.trans (List.subset_append_left left right) hinner)
    have hr := hread right hright hnr hsubr
    rw [form]
    by_cases hdot : op.text = "."
    · rw [if_pos hdot, parseSpan_member hs hdot]
      exact run_bind_eq hl fun _ => run_map_eq _ hr
    rw [if_neg hdot]
    by_cases hwhere : op.text = "where"
    · rw [if_pos hwhere]
      by_cases hnil : right = []
      · subst hnil
        rw [parseSpan_nothing_follows hs hwhere]
        refine run_bind_eq hl fun _ => ?_
        rw [run_step (handOn?_eq hright hnr)]
        rfl
      · rw [parseSpan_clauses hs hwhere hnil]
        refine run_bind_eq hl fun _ => ?_
        rw [run_step (handOn?_eq hright hnr)]
        refine run_map_eq _ (bindings_eq hnr hnil fun clause hclause name value hbinding => ?_)
        have hlength : clause.length ≤ right.length := length_le_of_mem_parts hclause
        have hshorter := readBinding_shorter hbinding
        refine hread value (by omega) (nested_of_readBinding hbinding ?_) ?_
        · exact nested_of_parts hnr clause hclause
        · exact List.Subset.trans (readBinding_subset hbinding)
            (List.Subset.trans (parts_subset right clause hclause) hsubr)
    · rw [if_neg hwhere]
      cases hb : BinaryOp.ofSymbol? op.text with
      | none =>
        rw [parseSpan_not_binary hs hdot hwhere hb]
        rfl
      | some b =>
        rw [parseSpan_binary hs hb]
        exact run_bind_eq hl fun _ => run_map_eq _ hr
  | atom t =>
    rw [parseSpan_atom hs]
    exact atom_eq (hreadable.subset hinner)
  | group inner =>
    obtain ⟨-, -, -, -, -, hn⟩ := hcovers
    rw [parseSpan_group hs]
    exact hread inner hwithin hn hinner
  | list inner =>
    obtain ⟨-, -, -, -, -, hn⟩ := hcovers
    have hlength : inner.length < span.length := Nat.lt_of_succ_lt hwithin
    rw [parseSpan_list hs, form, run_step (handOn?_eq hlength hn)]
    exact run_map_eq _ (hparts hn hlength hinner)
  | call name inner =>
    obtain ⟨-, -, -, -, -, -, hn⟩ := hcovers
    have hlength : inner.length < span.length := Nat.lt_of_succ_lt hwithin
    rw [form]
    split
    · next hf =>
      rw [parseSpan_not_function hs hf]
      rfl
    · next hf =>
      obtain ⟨f, hf⟩ := Option.ne_none_iff_exists'.1 (by simpa using hf)
      rw [parseSpan_call hs hf, run_step (handOn?_eq hlength hn)]
      refine run_bind_eq (hparts hn hlength hinner) fun arguments => ?_
      exact run_map_eq _ (run_ofExcept _)
  | other =>
    rw [parseSpan_other hs]
    rfl

/-- A nested span is read by checked steps, and none of them goes wrong. -/
theorem expression_eq (h : Nested span) (hreadable : Readable literal' literal span) :
    (expression literal' span).run = some (parseSpan literal span) := by
  -- By the length of the span and not by its form: the parts of a list and the values of
  -- bindings are handed on, too, and they are no spans of the form.
  induction hn : span.length using Nat.strongRecOn generalizing span with
  | ind n ih =>
    subst hn
    rw [expression, run_step (shape?_eq h)]
    refine form_eq rfl h hreadable fun sub hshorter hsub hsubset => ?_
    rw [run_step (handOn?_eq hshorter hsub)]
    exact ih sub.length hshorter hsub (hreadable.subset hsubset) rfl

theorem parseTokens_eq {tokens : List Token} (h : Readable literal' literal tokens) :
    (parseTokens literal' tokens).run = some (Formulary.parseTokens literal tokens) := by
  rw [parseTokens, Formulary.parseTokens]
  cases hfirst : firstUnmatched [] tokens with
  | some bracket => rfl
  | none => exact expression_eq ((nested_iff tokens).2 hfirst) h

theorem source_eq {text : String}
    (h : ∀ tokens, tokenize text = .ok tokens → Readable literal' literal tokens) :
    (source literal' text).run = some (parseSource literal text) := by
  rw [source, parseSource, ExceptT.run_bind, run_adapt _ (tokens_eq text)]
  cases htokens : tokenize text with
  | error e => rfl
  | ok tokens => exact parseTokens_eq (h tokens htokens)

/-! Texts with fragments. -/

/-- A text is cut where its fragments are, if these are compiled by checked steps. -/
theorem templateFrom_eq {compile' : String → Reading Expr} {compile : String → Except ParseError Expr}
    {content : String} {before tail : List Char} {fragments : List (List Char × List Char)}
    (text : String) (inserts : List (Nat × Expr))
    (h : content.toList = before ++ (⟨fragments, tail⟩ : Pieces).join)
    (hcompile : ∀ f ∈ fragments,
      (compile' (String.ofList f.2)).run = some (compile (String.ofList f.2))) :
    (templateFrom compile' content (Text.byteLength before) text inserts
        (places (Text.byteLength before) fragments)).run =
      some ((fun behind => ⟨text ++ String.ofList ((fragments.map Prod.fst).flatten ++ tail),
          behind.reverse ++ inserts⟩) <$>
        Template.compileFragments compile (Text.byteLength text.toList) fragments) := by
  induction fragments generalizing before text inserts with
  | nil =>
    have htail : content.toList = before ++ (tail ++ []) := by
      rw [h, List.append_nil]
      rfl
    have hslice := Text.slice?_of_append htail
    have hend : Text.byteLength content.toList = Text.byteLength before + Text.byteLength tail := by
      rw [htail, List.append_nil, Text.byteLength_append]
    rw [places, templateFrom, hend, run_step hslice]
    rfl
  | cons f fragments ih =>
    obtain ⟨plain, fragment⟩ := f
    have hfragment : (compile' (String.ofList fragment)).run =
        some (compile (String.ofList fragment)) := hcompile _ List.mem_cons_self
    have hfragments := fun f hf => hcompile f (List.mem_cons_of_mem _ hf)
    have hplain : content.toList = before ++ (plain ++ ('{' :: (fragment ++ ['}']) ++
        (⟨fragments, tail⟩ : Pieces).join)) := by
      rw [h]
      simp [Pieces.join]
    have hrest : content.toList = (before ++ plain ++ '{' :: (fragment ++ ['}'])) ++
        (⟨fragments, tail⟩ : Pieces).join := by
      rw [hplain]
      simp
    have hadapt := run_adapt (ParseError.interpolation (String.ofList fragment)) hfragment
    rw [places, templateFrom, run_step (Text.slice?_of_append hplain), Template.compileFragments,
      ExceptT.run_bind]
    dsimp only
    rw [hadapt]
    cases compile (String.ofList fragment) with
    | error e => rfl
    | ok e =>
      have hbehind := ih (text ++ String.ofList plain)
        ((Text.byteLength (text ++ String.ofList plain).toList, e) :: inserts) hrest hfragments
      have hposition : Text.byteLength (text ++ String.ofList plain).toList =
          Text.byteLength text.toList + Text.byteLength plain := by simp
      rw [Text.byteLength_append, Text.byteLength_append, hposition] at hbehind
      show ExceptT.run (templateFrom _ _ _ _ ((Text.byteLength _, e) :: inserts) _) = _
      rw [hposition, hbehind]
      cases hinserts : Template.compileFragments compile
          (Text.byteLength text.toList + Text.byteLength plain) fragments with
      | error e => rfl
      | ok behind =>
        have htext : text ++ String.ofList plain ++
            String.ofList ((fragments.map Prod.fst).flatten ++ tail) =
              text ++ String.ofList ((plain :: fragments.map Prod.fst).flatten ++ tail) := by
          simp [String.append_assoc]
        show some (Except.ok (Template.mk _ (behind.reverse ++ _ :: inserts))) =
          some (.ok ⟨_, (_ :: behind).reverse ++ inserts⟩)
        rw [htext, List.reverse_cons, List.append_assoc]
        rfl

theorem length_fragment_lt (p : Pieces) : ∀ f ∈ p.fragments, f.2.length < p.join.length := by
  obtain ⟨fragments, tail⟩ := p
  intro f hf
  obtain ⟨a, b, rfl⟩ : ∃ a b, fragments = a ++ f :: b := List.append_of_mem hf
  simp only [Pieces.join, List.map_append, List.map_cons, List.flatten_append, List.flatten_cons,
    List.length_append, List.length_cons]
  omega

/-- The content of a text token in a fragment is shorter than the text of the fragment. -/
theorem length_unquote_lt {content : String} {f : List Char × List Char} {tokens : List Token}
    {t : Token} (hf : f ∈ (Pieces.cut content.toList).fragments)
    (htokens : tokenize (String.ofList f.2) = .ok tokens) (ht : t ∈ tokens) :
    (unquote t.text).length < content.length := by
  have hfragment := length_fragment_lt _ f hf
  have htext : t.text.toList.length ≤ (String.ofList f.2).toList.length :=
    (Lexer.text_infix_of_tokens htokens t ht).length_le
  rw [Pieces.cut_join] at hfragment
  rw [String.toList_ofList] at htext
  rw [← String.length_toList, ← String.length_toList, unquote, String.toList_ofList,
    List.length_dropLast, List.length_drop]
  omega

/-- A text is read by checked steps, and none of them goes wrong, nor in its fragments. -/
theorem literal_eq (content : String) :
    (Checked.literal content).run = some (Template.parse content) := by
  -- A text in a fragment of a text is shorter, so the induction is on the length again.
  induction hn : content.length using Nat.strongRecOn generalizing content with
  | ind n ih =>
    subst hn
    have hcompile : ∀ f ∈ (Pieces.cut content.toList).fragments,
        (source (fun inner => do
          let inner ← shorter? content inner
          Checked.literal inner) (String.ofList f.2)).run =
            some (Formulary.parse (String.ofList f.2)) := by
      intro f hf
      refine source_eq fun tokens htokens t ht hkind =>
        ⟨textsDelimited_of_tokenize htokens t ht hkind, ?_⟩
      have hshorter := length_unquote_lt hf htokens ht
      rw [run_step (dif_pos hshorter)]
      exact ih _ hshorter _ rfl
    have hjoin := Pieces.cut_join content.toList
    have happend : content.toList = [] ++ (Pieces.cut content.toList).join := hjoin.symm
    have hfrom := templateFrom_eq "" [] happend hcompile
    rw [Checked.literal, Template.parse_eq_of_pieces hjoin (Pieces.proper_cut _)]
    simpa [Text.byteLength] using hfrom

/-- **No step of the parser goes wrong.** All text tokens of a source are delimited. The scans
of a nested span go to its end without a count below zero, and every opening bracket in it
finds its partner. So, of any tokens with delimited texts, also of such as no source has, the
reading by checked steps comes to what the parser gives: once the brackets match, each span
that is handed on is shorter and nested again, and all indices, slices and cuts stay within
their spans and texts. -/
theorem no_step_misses :
    (∀ source tokens, tokenize source = .ok tokens → TextsDelimited tokens) ∧
    (∀ span, Nested span →
      splitPosition? span = some ((splitPoint span).map Prod.fst) ∧
      splitCommas? span = some (splitCommas 0 span) ∧
      ∀ before opening rest, span = before ++ opening :: rest → opening.opens = true →
        ∃ inner closing behind, rest = inner ++ closing :: behind ∧ Nested inner ∧
          closing.closes = true ∧ opening.kind = closing.kind.partner ∧
          closing? span before.length = some (before.length + 1 + inner.length)) ∧
    ∀ tokens, TextsDelimited tokens →
      (parseTokens Checked.literal tokens).run =
        some (Formulary.parseTokens Template.parse tokens) := by
  refine ⟨fun source tokens h => textsDelimited_of_tokenize h, fun span h => ?_, fun tokens h => ?_⟩
  · refine ⟨splitPosition?_eq h, splitCommas?_eq h, ?_⟩
    rintro before opening rest rfl ho
    exact exists_closing? h ho
  · exact parseTokens_eq fun t ht hkind => ⟨h t ht hkind, literal_eq _⟩

/-- The tokens of `max(["a{n}", 2]) where n = -3`, a text in double quotes among them: no
source has such a token. -/
theorem no_step_misses_in_double_quotes :
    let tokens : List Token := [⟨.word, "max", 0⟩, ⟨.openParen, "(", 3⟩, ⟨.openBracket, "[", 4⟩,
      ⟨.text, "\"a\x7bn\x7d\"", 5⟩, ⟨.comma, ",", 11⟩, ⟨.integer, "2", 13⟩,
      ⟨.closeBracket, "]", 14⟩, ⟨.closeParen, ")", 15⟩, ⟨.word, "where", 17⟩, ⟨.word, "n", 23⟩,
      ⟨.operator, "=", 25⟩, ⟨.operator, "-", 27⟩, ⟨.integer, "3", 28⟩]
    TextsDelimited [⟨.text, "'é'", 0⟩] ∧ Nested tokens ∧ splitPosition? tokens = some (some 8) ∧
      (closing? tokens 1).isSome ∧ TextsDelimited tokens ∧
      (parseTokens Checked.literal tokens).run =
        some (.ok (.clauses (.call .max [.list [.text "a" [(1, .name "n")], .integer 2]])
          [("n", .unary .negate (.integer 3))])) := by
  intro tokens
  have hsource : tokenize "'é'" = .ok [⟨.text, "'é'", 0⟩] := by cbv
  have hnested : Nested tokens := by decide
  have hdelimited : TextsDelimited tokens := by decide
  have hsplit : splitPoint tokens = some (8, ⟨.word, "where", 17⟩) := by decide
  have hparse : Formulary.parseTokens Template.parse tokens =
      .ok (.clauses (.call .max [.list [.text "a" [(1, .name "n")], .integer 2]])
        [("n", .unary .negate (.integer 3))]) := by cbv
  obtain ⟨htexts, hscans, hreads⟩ := no_step_misses
  obtain ⟨hposition, -, hpartners⟩ := hscans tokens hnested
  obtain ⟨inner, closing, behind, -, -, -, -, hclosing⟩ :=
    hpartners [⟨.word, "max", 0⟩] ⟨.openParen, "(", 3⟩ _ rfl rfl
  refine ⟨htexts _ _ hsource, hnested, ?_, ?_, hdelimited, ?_⟩
  · rw [hposition, hsplit]
    rfl
  · exact Option.isSome_of_eq_some hclosing
  · rw [hreads tokens hdelimited, hparse]

/-- A text token of one byte, or one that begins with a character of two, is not read. -/
example : (parseTokens Checked.literal [⟨.text, "'", 0⟩]).run = none ∧
    (parseTokens Checked.literal [⟨.text, "é'", 0⟩]).run = none := by
  constructor <;> cbv

end Checked

end Formulary
