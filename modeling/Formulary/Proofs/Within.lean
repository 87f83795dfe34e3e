import Formulary.Proofs.Calls

/-! Trees within a vocabulary.

`Expr.Within` says which names, operators and functions a tree is written with, in its texts
too. By means that are closed, the trees of their vocabulary are evaluated stepwise
(`Within.stepwise`); every tree is within the full vocabulary. -/
namespace Formulary

namespace Expr

/-- All names, operators and calls in the tree are in the vocabulary. The names that a
`where` binds may be any. -/
inductive Within (V : Vocabulary) : Expr → Prop where
  | integer (n : Int64) : Within V (.integer n)
  | text {s : String} {inserts : List (Nat × Expr)} (h : ∀ i ∈ inserts, i.2.Within V) :
      Within V (.text s inserts)
  | list {items : List Expr} (h : ∀ e ∈ items, e.Within V) : Within V (.list items)
  | name {n : String} (hn : V.name n) : Within V (.name n)
  | unary {op : UnaryOp} {operand : Expr} (h : operand.Within V) : Within V (.unary op operand)
  | binary {op : BinaryOp} {left right : Expr} (hop : V.operator op) (hl : left.Within V)
      (hr : right.Within V) : Within V (.binary op left right)
  | member {subject selector : Expr} (hs : subject.Within V) (h : selector.Within V) :
      Within V (.member subject selector)
  | call {f : Builtin} {arguments : List Expr} (hf : V.call f arguments.length)
      (h : ∀ e ∈ arguments, e.Within V) : Within V (.call f arguments)
  | clauses {body : Expr} {bindings : List (String × Expr)} (hbody : body.Within V)
      (h : ∀ b ∈ bindings, b.2.Within V) : Within V (.clauses body bindings)

end Expr

/-! ### Steps of trees -/

theorem stepwise_splice {A : Means} {inserts : List (Nat × Meaning)}
    (h : ∀ i ∈ inserts, Stepwise A i.2 A.value) (text : String) :
    Stepwise A (fun scope => splice inserts scope text) fun _ => True :=
  .foldlM trivial fun _ _ i hi => (h i hi).bind fun _ _ => .pure trivial

namespace Expr

theorem Within.stepwise {A : Means} (hA : A.Closed) {e : Expr} (h : e.Within A.toVocabulary) :
    Stepwise A e.eval A.value := by
  induction h with
  | integer n => exact .pure (hA.integer n)
  | name hn => exact .name hn
  | @text s inserts _ ih =>
    have hinserts : ∀ i ∈ insertMeanings inserts, Stepwise A i.2 A.value := by
      rw [insertMeanings_eq_map]
      exact List.forall_mem_map.2 ih
    exact (stepwise_splice hinserts s).map fun s _ => hA.text s
  | @list items _ ih =>
    have hitems : ∀ m ∈ meanings items, Stepwise A m A.value := by
      rw [meanings_eq_map]
      exact List.forall_mem_map.2 ih
    exact (Stepwise.mapM hitems).map fun items h => (hA.list items).2 h.2
  | unary _ ih => exact ih.bind fun v _ => hA.unary _ v
  | binary hop _ _ ihl ihr => exact ihl.bind fun a _ => ihr.bind fun b _ => hA.binary _ hop a b
  | member _ _ ihs ih => exact ihs.bind fun v hv => hA.selectMember hv ih
  | @call f arguments hf _ ih =>
    show Stepwise A (f.apply (meanings arguments)) A.value
    rw [meanings_eq_map]
    exact hA.apply (by rwa [List.length_map]) (List.forall_mem_map.2 ih)
  | @clauses body bindings _ _ ihbody ih =>
    have hbindings : ∀ b ∈ bindings.map fun b => (b.1, b.2.eval), Stepwise A b.2 A.value :=
      List.forall_mem_map.2 ih
    have hclauses := Stepwise.clauses hbindings ihbody
    simp only [List.map_map, Function.comp_def, ← clauseRuns_eq_map] at hclauses
    exact hclauses

end Expr

/-! ### Vocabularies -/

/-- What is written in a vocabulary is written in one that has more. -/
theorem Expr.Within.mono {V V' : Vocabulary} {e : Expr} (h : e.Within V)
    (hname : ∀ n, V.name n → V'.name n) (hoperator : ∀ op, V.operator op → V'.operator op)
    (hcall : ∀ f n, V.call f n → V'.call f n) : e.Within V' := by
  induction h with
  | integer n => exact .integer n
  | text _ ih => exact .text ih
  | list _ ih => exact .list ih
  | name hn => exact .name (hname _ hn)
  | unary _ ih => exact .unary ih
  | binary hop _ _ ihl ihr => exact .binary (hoperator _ hop) ihl ihr
  | member _ _ ihs ih => exact .member ihs ih
  | call hf _ ih => exact .call (hcall _ _ hf) ih
  | clauses _ _ ihbody ih => exact .clauses ihbody ih

/-- Everything that can be written. -/
def Vocabulary.full : Vocabulary := ⟨fun _ => True, fun _ => True, fun _ _ => True⟩

/-- Calls with a count of arguments that their functions take. -/
def Vocabulary.accepted : Vocabulary :=
  ⟨fun _ => True, fun _ => True, fun f n => f.arity.accepts n = true⟩

namespace Expr

mutual

theorem within_full : (e : Expr) → e.Within .full
  | .integer n => .integer n
  | .text _ inserts => .text (inserts_within_full inserts)
  | .list items => .list (items_within_full items)
  | .name _ => .name trivial
  | .unary _ operand => .unary (within_full operand)
  | .binary _ left right => .binary trivial (within_full left) (within_full right)
  | .member subject selector => .member (within_full subject) (within_full selector)
  | .call _ arguments => .call trivial (items_within_full arguments)
  | .clauses body bindings => .clauses (within_full body) (bindings_within_full bindings)

theorem items_within_full : (items : List Expr) → ∀ e ∈ items, e.Within .full
  | [] => fun _ he => nomatch he
  | e :: items => List.forall_mem_cons.2 ⟨within_full e, items_within_full items⟩

theorem inserts_within_full : (inserts : List (Nat × Expr)) → ∀ i ∈ inserts, i.2.Within .full
  | [] => fun _ hi => nomatch hi
  | (_, e) :: inserts => List.forall_mem_cons.2 ⟨within_full e, inserts_within_full inserts⟩

theorem bindings_within_full : (bindings : List (String × Expr)) →
    ∀ b ∈ bindings, b.2.Within .full
  | [] => fun _ hb => nomatch hb
  | (_, e) :: bindings => List.forall_mem_cons.2 ⟨within_full e, bindings_within_full bindings⟩

end

end Expr

/-- The expressions of a vocabulary, with all values, objects and errors. -/
def Means.within (V : Vocabulary) : Means :=
  ⟨V, fun _ => True, fun _ => True, fun _ => True⟩

theorem Means.closed_within (V : Vocabulary) : (Means.within V).Closed where
  integer _ := trivial
  text _ := trivial
  list _ := ⟨fun _ _ _ => trivial, fun _ => trivial⟩
  reference _ _ := Iff.rfl
  tile _ _ := trivial
  record _ _ _ := trivial
  layer _ _ _ := ⟨fun _ _ => trivial, trivial⟩
  host _ _ _ := trivial
  fail _ _ := trivial
  count _ _ _ _ := trivial

/-- By all means. -/
def Means.all : Means :=
  ⟨.full, fun _ => True, fun _ => True, fun _ => True⟩

theorem Means.closed_all : Means.all.Closed := closed_within .full

/-- Every expression is evaluated stepwise. -/
theorem Expr.stepwise (e : Expr) : Stepwise Means.all e.eval Means.all.value :=
  (within_full e).stepwise Means.closed_all

end Formulary
