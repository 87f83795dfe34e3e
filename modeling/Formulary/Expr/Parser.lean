import Formulary.Expr.Span
import Formulary.Expr.Template
import Formulary.Text.Decimal
import Formulary.Word

/-! From tokens to expression trees.

`parseSpan` reads a span by its outermost form and the spans inside it by recursion.
Brackets are checked once, before: `parseTokens` refuses a token list with an
unmatched bracket whatever else is wrong with it.

A fragment of a text literal holds no closing brace, so a text literal inside a
fragment has no fragments of its own. That is why two readers suffice, one for the
text literals of a source and one for those inside a fragment, and why `parse` needs
no recursion through its own source. -/
namespace Formulary

/-! ### Atoms -/

/-- The number that a nonempty run of digits writes. -/
def natural? (cs : List Char) : Option Nat :=
  if cs.isEmpty || !cs.all Text.isDigit then none else some (Text.ofDigits cs)

/-- The 64-bit integer that digits write, with a sign or without. -/
def integer? (text : String) : Option Int64 :=
  match text.toList with
  | '+' :: digits => (natural? digits).bind fun n => Word.narrow? n
  | '-' :: digits => (natural? digits).bind fun n => Word.narrow? (-n)
  | digits => (natural? digits).bind fun n => Word.narrow? n

/-- The text between the quotes of a text token. -/
def unquote (text : String) : String :=
  String.ofList (text.toList.drop 1).dropLast

def parseAtom (literal : String → Except ParseError Template) (t : Token) :
    Except ParseError Expr :=
  match t.kind with
  | .word => .ok (.name t.text)
  | .integer =>
    match integer? t.text with
    | some n => .ok (.integer n)
    | none => .error (.notAnInteger t.text)
  | .text => Template.toExpr <$> literal (unquote t.text)
  | _ => .error (.unparseable t.text)

/-! ### Bindings -/

/-- The name and the value of one binding of a `where`. -/
def readBinding : List Token → Except ParseError (String × List Token)
  | [] => .error (.malformedWhere .empty)
  | name :: equal :: value =>
    if equal.kind = .operator && equal.text = "=" then
      if name.kind ≠ .word || name.isOperator then
        .error (.malformedWhere (.notAName name.text))
      else if value.isEmpty then .error (.malformedWhere (.noValue name.text))
      else .ok (name.text, value)
    else .error (.malformedWhere (.noBinding (joinTexts (name :: equal :: value))))
  | clause => .error (.malformedWhere (.noBinding (joinTexts clause)))

theorem readBinding_shorter {clause value : List Token} {name : String}
    (h : readBinding clause = .ok (name, value)) : value.length < clause.length := by
  unfold readBinding at h
  split at h
  · cases h
  · split at h
    · split at h
      · cases h
      · split at h
        · cases h
        · cases h
          simp only [List.length_cons]
          omega
    · cases h
  · cases h

/-! ### Calls -/

/-- The function that a call names, if it takes that many arguments. -/
def Builtin.resolve (name : String) (count : Nat) : Except ParseError Builtin :=
  match Builtin.ofName? name with
  | none => .error (.unknownFunction name)
  | some f => if f.arity.accepts count then .ok f else .error (.argumentCount f count)

/-! ### Spans -/

/-- The parts of a span between its commas; none if the span is empty. -/
def parts (span : List Token) : List (List Token) :=
  if span.isEmpty then [] else splitCommas 0 span

/-- The parts of a span are no more work than the span. -/
theorem partsSize_parts (span : List Token) : partsSize (parts span) ≤ span.length + 1 := by
  unfold parts
  split
  · exact Nat.zero_le _
  · exact Nat.le_of_eq (splitCommas_size 0 span)

section
variable (literal : String → Except ParseError Template)

mutual

def parseSpan (span : List Token) : Except ParseError Expr :=
  match h : Shape.of span with
  | .empty => .error .emptyExpression
  | .unary op operand =>
    match UnaryOp.ofSymbol? op.text with
    | none => .error (.notUnary op.text)
    | some u =>
      have : operand.length < span.length := by simpa [h, Shape.Within] using Shape.within_of span
      return .unary u (← parseSpan operand)
  | .binary left op right =>
    have : left.length < span.length ∧ right.length + 1 < span.length := by
      simpa [h, Shape.Within] using Shape.within_of span
    if op.text = "." then return .member (← parseSpan left) (← parseSpan right)
    else if op.text = "where" then do
      let body ← parseSpan left
      if right.isEmpty then throw (.malformedWhere .nothingFollows)
      let bindings ← parseBindings [] (parts right)
      return .clauses body bindings
    else match BinaryOp.ofSymbol? op.text with
      | none => .error (.notBinary op.text)
      | some b => return .binary b (← parseSpan left) (← parseSpan right)
  | .atom t => parseAtom literal t
  | .group inner =>
    have : inner.length < span.length := by simpa [h, Shape.Within] using Shape.within_of span
    parseSpan inner
  | .list inner =>
    have : inner.length + 1 < span.length := by simpa [h, Shape.Within] using Shape.within_of span
    return .list (← parseParts (parts inner))
  | .call name inner =>
    have : inner.length + 1 < span.length := by simpa [h, Shape.Within] using Shape.within_of span
    if (Builtin.ofName? name.text).isNone then .error (.unknownFunction name.text)
    else do
      let arguments ← parseParts (parts inner)
      let f ← Builtin.resolve name.text arguments.length
      return .call f arguments
  | .other => .error (.unparseable (joinTexts span))
termination_by span.length
decreasing_by
  all_goals
    first
    | omega
    | exact Nat.lt_of_le_of_lt (partsSize_parts _) (by omega)

/-- The expressions of several spans, in order. -/
def parseParts (spans : List (List Token)) : Except ParseError (List Expr) :=
  match spans with
  | [] => .ok []
  | span :: rest => return (← parseSpan span) :: (← parseParts rest)
termination_by partsSize spans
decreasing_by all_goals simp [partsSize]; try omega

/-- The bindings of a `where`, in order. `bound` holds the names bound already. -/
def parseBindings (bound : List String) (clauses : List (List Token)) :
    Except ParseError (List (String × Expr)) :=
  match clauses with
  | [] => .ok []
  | clause :: rest =>
    match h : readBinding clause with
    | .error e => .error e
    | .ok (name, value) =>
      have := readBinding_shorter h
      if bound.contains name then .error (.duplicateBinding name)
      else return (name, ← parseSpan value) :: (← parseBindings (name :: bound) rest)
termination_by partsSize clauses
decreasing_by all_goals simp [partsSize]; try omega

end

/-! ### Spans by their form -/

section Forms
variable {literal} {span left right operand inner : List Token} {op t name : Token}

theorem parseSpan_empty (h : Shape.of span = .empty) :
    parseSpan literal span = .error .emptyExpression := by
  rw [parseSpan]
  split <;> simp_all

theorem parseSpan_atom (h : Shape.of span = .atom t) :
    parseSpan literal span = parseAtom literal t := by
  rw [parseSpan]
  split <;> simp_all

theorem parseSpan_unary {u : UnaryOp} (h : Shape.of span = .unary op operand)
    (hu : UnaryOp.ofSymbol? op.text = some u) :
    parseSpan literal span = .unary u <$> parseSpan literal operand := by
  rw [parseSpan]
  split <;> simp_all

theorem parseSpan_member (h : Shape.of span = .binary left op right) (hop : op.text = ".") :
    parseSpan literal span =
      (do return .member (← parseSpan literal left) (← parseSpan literal right)) := by
  rw [parseSpan]
  split <;> simp_all

theorem parseSpan_binary {b : BinaryOp} (h : Shape.of span = .binary left op right)
    (hb : BinaryOp.ofSymbol? op.text = some b) :
    parseSpan literal span =
      (do return .binary b (← parseSpan literal left) (← parseSpan literal right)) := by
  have hdot : op.text ≠ "." := fun hop => by simp [hop, BinaryOp.ofSymbol?, BinaryOp.all,
    BinaryOp.symbol] at hb
  have hwhere : op.text ≠ "where" := fun hop => by simp [hop, BinaryOp.ofSymbol?, BinaryOp.all,
    BinaryOp.symbol] at hb
  rw [parseSpan]
  split <;> simp_all

theorem parseSpan_clauses (h : Shape.of span = .binary left op right) (hop : op.text = "where")
    (hright : right ≠ []) :
    parseSpan literal span =
      (do
        let body ← parseSpan literal left
        return .clauses body (← parseBindings literal [] (parts right))) := by
  rw [parseSpan]
  split <;> simp_all

theorem parseSpan_group (h : Shape.of span = .group inner) :
    parseSpan literal span = parseSpan literal inner := by
  rw [parseSpan]
  split <;> simp_all

theorem parseSpan_list (h : Shape.of span = .list inner) :
    parseSpan literal span = .list <$> parseParts literal (parts inner) := by
  rw [parseSpan]
  split <;> simp_all

theorem parseSpan_call {f : Builtin} (h : Shape.of span = .call name inner)
    (hf : Builtin.ofName? name.text = some f) :
    parseSpan literal span =
      (do
        let arguments ← parseParts literal (parts inner)
        let f ← Builtin.resolve name.text arguments.length
        return .call f arguments) := by
  rw [parseSpan]
  split <;> simp_all

/-! Forms that are refused. -/

theorem parseSpan_other (h : Shape.of span = .other) :
    parseSpan literal span = .error (.unparseable (joinTexts span)) := by
  rw [parseSpan]
  split <;> simp_all

theorem parseSpan_not_unary (h : Shape.of span = .unary op operand)
    (hu : UnaryOp.ofSymbol? op.text = none) :
    parseSpan literal span = .error (.notUnary op.text) := by
  rw [parseSpan]
  split <;> simp_all

theorem parseSpan_not_binary (h : Shape.of span = .binary left op right) (hdot : op.text ≠ ".")
    (hwhere : op.text ≠ "where") (hb : BinaryOp.ofSymbol? op.text = none) :
    parseSpan literal span = .error (.notBinary op.text) := by
  rw [parseSpan]
  split <;> simp_all

theorem parseSpan_not_function (h : Shape.of span = .call name inner)
    (hf : (Builtin.ofName? name.text).isNone = true) :
    parseSpan literal span = .error (.unknownFunction name.text) := by
  rw [parseSpan]
  split <;> simp_all

end Forms

/-- The expression of a whole token list. -/
def parseTokens (tokens : List Token) : Except ParseError Expr :=
  match firstUnmatched [] tokens with
  | some bracket => .error (.unbalanced bracket.text bracket.offset)
  | none => parseSpan literal tokens

def parseSource (source : String) : Except ParseError Expr := do
  let tokens ← (tokenize source).mapError .lexical
  parseTokens literal tokens

end

/-! ### Sources -/

/-- The expression of a fragment; text literals in it are plain. -/
def parseFragment : String → Except ParseError Expr :=
  parseSource fun content => .ok (.plain content)

/-- The template that a text stands for. -/
def Template.parse (content : String) : Except ParseError Template :=
  Template.ofString parseFragment content

/-- The expression that a source text stands for. -/
def parse (source : String) : Except ParseError Expr :=
  parseSource Template.parse source

end Formulary
