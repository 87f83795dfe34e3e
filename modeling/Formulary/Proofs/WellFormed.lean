import Formulary.Proofs.Boundary
import Formulary.Proofs.Grammar
import Formulary.Proofs.Lexeme

/-! What the parser guarantees of a tree.

A tree is `WellFormed` if evaluation can rely on it throughout, inside texts too: numbers
are not negative, names are words, calls have the arguments that they need, the bindings
of a `where` have different names, and what is put into a text goes in at character
boundaries, from back to front. `wellFormed_of_parse`: all trees that the parser returns
are. -/
namespace Formulary

/-- A word for the lexer, and not an operator. -/
def IsName (name : String) : Prop :=
  scan name.toList = .lexeme .word name.toList [] ∧ isWordOperator name = false

namespace Expr

inductive WellFormed : Expr → Prop where
  | integer {n : Int64} (h : 0 ≤ n.toInt) : WellFormed (.integer n)
  | text {s : String} {inserts : List (Nat × Expr)}
      (hsorted : (inserts.map Prod.fst).Pairwise fun a b => b ≤ a)
      (hboundary : ∀ i ∈ inserts, i.1 ≤ Text.byteLength s.toList ∧ Text.IsBoundary i.1 s)
      (h : ∀ i ∈ inserts, i.2.WellFormed) : WellFormed (.text s inserts)
  | list {items : List Expr} (h : ∀ e ∈ items, e.WellFormed) : WellFormed (.list items)
  | name {n : String} (h : IsName n) : WellFormed (.name n)
  | unary {op : UnaryOp} {operand : Expr} (h : operand.WellFormed) : WellFormed (.unary op operand)
  | binary {op : BinaryOp} {left right : Expr} (hl : left.WellFormed) (hr : right.WellFormed) :
      WellFormed (.binary op left right)
  | member {subject selector : Expr} (hs : subject.WellFormed) (h : selector.WellFormed) :
      WellFormed (.member subject selector)
  | call {f : Builtin} {arguments : List Expr} (harity : f.arity.accepts arguments.length = true)
      (h : ∀ e ∈ arguments, e.WellFormed) : WellFormed (.call f arguments)
  | clauses {body : Expr} {bindings : List (String × Expr)} (hbody : body.WellFormed)
      (hne : bindings ≠ []) (hdistinct : (bindings.map Prod.fst).Nodup)
      (hnames : ∀ b ∈ bindings, IsName b.1) (h : ∀ b ∈ bindings, b.2.WellFormed) :
      WellFormed (.clauses body bindings)

end Expr

def Phrase.WellFormed : Phrase → Prop
  | .expr e => e.WellFormed
  | .items es => ∀ e ∈ es, e.WellFormed
  | .bindings bs => bs ≠ [] ∧ (bs.map Prod.fst).Nodup ∧ (∀ b ∈ bs, IsName b.1) ∧
      ∀ b ∈ bs, b.2.WellFormed

/-! ### Readings of a span -/

theorem Token.Lexed.isName {t : Token} (h : t.Lexed) (hk : t.kind = .word)
    (hop : t.isOperator = false) : IsName t.text := by
  refine ⟨?_, by simpa [Token.isOperator, hk] using hop⟩
  rw [← hk]
  exact h

/-- Digits without a sign write no negative number. -/
theorem nonneg_of_integer? {t : Token} {n : Int64} (h : t.Lexed) (hk : t.kind = .integer)
    (hn : integer? t.text = some n) : 0 ≤ n.toInt := by
  obtain ⟨-, hdigits⟩ := h.digits_of_kind hk
  unfold integer? at hn
  split at hn
  · next heq => simp [heq, Text.isDigit] at hdigits
  · next heq => simp [heq, Text.isDigit] at hdigits
  · obtain ⟨k, -, hk⟩ := Option.bind_eq_some_iff.1 hn
    rw [Word.toInt_of_narrow? hk]
    exact Int.natCast_nonneg k

/-- What lexed tokens derive is well formed, if what their texts stand for is. -/
theorem Derives.wellFormed {literal : String → Except ParseError Template}
    (hliteral : ∀ content template, literal content = .ok template → template.toExpr.WellFormed)
    {span : List Token} {p : Phrase} (h : Derives literal span p) (hl : ∀ t ∈ span, t.Lexed) :
    p.WellFormed := by
  induction h with
  | name hk hop => exact .name ((hl _ (List.mem_singleton_self _)).isName hk hop)
  | integer hk hn => exact .integer (nonneg_of_integer? (hl _ (List.mem_singleton_self _)) hk hn)
  | text hk ht => exact hliteral _ _ ht
  | unary _ _ _ ih =>
    simp only [List.forall_mem_cons] at hl
    exact .unary (ih hl.2)
  | binary _ _ _ _ ihl ihr =>
    simp only [List.forall_mem_append, List.forall_mem_cons] at hl
    exact .binary (ihl hl.1) (ihr hl.2.2)
  | member _ _ _ _ ihl ihr =>
    simp only [List.forall_mem_append, List.forall_mem_cons] at hl
    exact .member (ihl hl.1) (ihr hl.2.2)
  | clauses _ _ _ _ ihl ihr =>
    simp only [List.forall_mem_append, List.forall_mem_cons] at hl
    obtain ⟨hne, hdistinct, hnames, hvalues⟩ := ihr hl.2.2
    exact .clauses (ihl hl.1) hne hdistinct hnames hvalues
  | group _ _ _ ih =>
    simp only [List.forall_mem_append, List.forall_mem_cons] at hl
    exact ih hl.2.1
  | list _ _ _ ih =>
    simp only [List.forall_mem_append, List.forall_mem_cons] at hl
    exact .list (ih hl.2.1)
  | call _ _ _ _ harity _ ih =>
    simp only [List.forall_mem_append, List.forall_mem_cons] at hl
    exact .call harity (ih hl.2.2.1)
  | noItem => exact fun _ he => nomatch he
  | lastItem _ ih =>
    intro e he
    obtain rfl := List.mem_singleton.1 he
    exact ih hl
  | moreItems _ _ _ _ ihe ihs =>
    simp only [List.forall_mem_append, List.forall_mem_cons] at hl
    exact List.forall_mem_cons.2 ⟨ihe hl.1, ihs hl.2.2⟩
  | lastBinding hw hop _ _ _ ih =>
    simp only [List.forall_mem_cons] at hl
    have hname := hl.1.isName hw hop
    have he := ih hl.2.2
    simp only [Phrase.WellFormed, List.forall_mem_singleton]
    exact ⟨List.cons_ne_nil _ _, by simp, hname, he⟩
  | moreBindings hw hop _ _ _ hne hnew _ _ ihe ihs =>
    simp only [List.forall_mem_append, List.forall_mem_cons] at hl
    obtain ⟨-, hdistinct, hnames, hvalues⟩ := ihs hl.2.2.2.2
    exact ⟨List.cons_ne_nil _ _, List.nodup_cons.2 ⟨hnew, hdistinct⟩,
      List.forall_mem_cons.2 ⟨hl.1.isName hw hop, hnames⟩,
      List.forall_mem_cons.2 ⟨ihe hl.2.2.1, hvalues⟩⟩

/-! ### Templates -/

/-- The positions of compiled fragments ascend, and each is a boundary of the plain text
that `before` begins. -/
theorem Template.compileFragments_spec {compile : String → Except ParseError Expr}
    (hcompile : ∀ fragment e, compile fragment = .ok e → e.WellFormed)
    {fragments : List (List Char × List Char)} {inserts : List (Nat × Expr)} (before : List Char)
    (h : compileFragments compile (Text.byteLength before) fragments = .ok inserts) :
    (inserts.map Prod.fst).Pairwise (· ≤ ·) ∧
      ∀ i ∈ inserts, i.2.WellFormed ∧ ∃ more rest,
        (fragments.map Prod.fst).flatten = more ++ rest ∧
          Text.byteLength (before ++ more) = i.1 := by
  induction fragments generalizing inserts before with
  | nil =>
    obtain rfl := Except.ok.inj h
    exact ⟨.nil, fun _ hi => nomatch hi⟩
  | cons fragment fragments ih =>
    obtain ⟨plain, fragment⟩ := fragment
    rw [compileFragments] at h
    obtain ⟨e, he, h⟩ := bind_eq_ok_iff.1 h
    obtain ⟨rest, hrest, h⟩ := bind_eq_ok_iff.1 h
    obtain rfl := Except.ok.inj h
    rw [← Text.byteLength_append] at hrest
    obtain ⟨hsorted, hall⟩ := ih (before ++ plain) hrest
    have hlater : ∀ i ∈ rest, Text.byteLength (before ++ plain) ≤ i.1 := by
      intro i hi
      obtain ⟨-, more, _, -, hbytes⟩ := hall i hi
      rw [← hbytes, Text.byteLength_append _ more]
      exact Nat.le_add_right _ _
    refine ⟨?_, List.forall_mem_cons.2 ⟨⟨?_, plain, _, rfl, Text.byteLength_append _ _⟩, ?_⟩⟩
    · rw [List.map_cons, List.pairwise_cons]
      refine ⟨fun position hp => ?_, hsorted⟩
      obtain ⟨i, hi, rfl⟩ := List.mem_map.1 hp
      rw [← Text.byteLength_append]
      exact hlater i hi
    · exact hcompile _ e (mapError_eq_ok_iff.1 he)
    · intro i hi
      obtain ⟨hwf, more, rest', hflat, hbytes⟩ := hall i hi
      refine ⟨hwf, plain ++ more, rest', ?_, ?_⟩
      · rw [List.map_cons, List.flatten_cons, hflat, List.append_assoc]
      · rw [← hbytes, List.append_assoc]

theorem wellFormed_of_ofString {compile : String → Except ParseError Expr}
    (hcompile : ∀ fragment e, compile fragment = .ok e → e.WellFormed) {content : String}
    {template : Template} (h : Template.ofString compile content = .ok template) :
    template.toExpr.WellFormed := by
  obtain ⟨inserts, hinserts, h⟩ := bind_eq_ok_iff.1 h
  obtain rfl := Except.ok.inj h
  obtain ⟨hsorted, hall⟩ := Template.compileFragments_spec hcompile [] hinserts
  refine .text ?_ ?_ ?_
  · rw [List.map_reverse, List.pairwise_reverse]
    exact hsorted
  · intro i hi
    obtain ⟨-, more, rest, hflat, hbytes⟩ := hall i (List.mem_reverse.1 hi)
    have hboundary : Text.IsBoundary i.1 (String.ofList
        (((Pieces.cut content.toList).fragments.map Prod.fst).flatten ++
          (Pieces.cut content.toList).tail)) :=
      ⟨more, rest ++ (Pieces.cut content.toList).tail, by
        rw [String.toList_ofList, hflat, List.append_assoc], hbytes⟩
    exact ⟨hboundary.le_byteLength, hboundary⟩
  · exact fun i hi => (hall i (List.mem_reverse.1 hi)).1

/-! ### Sources -/

theorem wellFormed_of_parseSource {literal : String → Except ParseError Template}
    (hliteral : ∀ content template, literal content = .ok template → template.toExpr.WellFormed)
    {source : String} {e : Expr} (h : parseSource literal source = .ok e) : e.WellFormed := by
  obtain ⟨tokens, htokens, -, hd⟩ := derives_of_parseSource h
  exact hd.wellFormed hliteral (lexed_of_tokenize htokens)

/-- A text without fragments has nothing put into it. -/
theorem wellFormed_plain (content : String) : (Template.plain content).toExpr.WellFormed :=
  .text .nil (fun _ hi => nomatch hi) (fun _ hi => nomatch hi)

theorem wellFormed_of_parse {source : String} {e : Expr} (h : parse source = .ok e) :
    e.WellFormed := by
  refine wellFormed_of_parseSource (fun content template ht => ?_) h
  refine wellFormed_of_ofString (fun fragment e he => ?_) ht
  refine wellFormed_of_parseSource (fun content template ht => ?_) he
  exact Except.ok.inj ht ▸ wellFormed_plain content

end Formulary
