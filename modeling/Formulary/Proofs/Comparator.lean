import Formulary.Proofs.Settling
import Formulary.Proofs.Sorted
import Formulary.Proofs.Unmentioned
import Mathlib

/-! Sorting by an expression.

A test that is an expression may do anything: draw dice, contradict itself, fail. A sort by it
only ever comes to worlds that successful tests lead to (`Tested`), fails only where a test
does, and loses no element. If the test says in all these worlds what a strict weak order says,
the result is in that order, and elements of which neither is before the other stay in their
order (`SortedBy`).

Without dice a test says the same in all these worlds, so it is enough to know what it says in
one (`Expr.Within.agrees`). It may make objects and ask those of the host, and it may be the
first to ask for clauses around it, which then remember what they came to. So the layers of the
scope are settled one after the other: a test in a scope with a layer says what it says where
that layer is settled, and there are fewer layers there. -/
namespace Formulary

/-! ### Strict weak orders -/

section
variable {α : Type} {lt : α → α → Bool} {items sorted : List α}

/-- The test orders the elements of a list strictly and weakly. -/
def OrdersWeakly (lt : α → α → Bool) (items : List α) : Prop :=
  IsStrictWeakOrder {a // a ∈ items} fun a b => lt a b = true

/-- Neither element is before the other. -/
def tied (lt : α → α → Bool) (a b : α) : Bool := !lt a b && !lt b a

/-- The elements are those of the list, none before an earlier one, and those that are tied
stand as in the list. -/
structure SortedBy (lt : α → α → Bool) (items sorted : List α) : Prop where
  perm : sorted.Perm items
  inOrder : sorted.Pairwise fun a b => lt b a = false
  stable : ∀ a ∈ items, sorted.filter (tied lt a) = items.filter (tied lt a)

theorem tied_eq_true_iff {a b : α} : tied lt a b = true ↔ lt a b = false ∧ lt b a = false := by
  simp [tied]

/-- What is not before an element is not before anything that this is not before either. -/
theorem OrdersWeakly.not_lt_trans (h : OrdersWeakly lt items) {a b c : α} (ha : a ∈ items)
    (hb : b ∈ items) (hc : c ∈ items) (hba : lt b a = false) (hcb : lt c b = false) :
    lt c a = false := by
  have htrans {x y z : α} (hx : x ∈ items) (hy : y ∈ items) (hz : z ∈ items)
      (hxy : lt x y = true) (hyz : lt y z = true) : lt x z = true :=
    h.trans ⟨x, hx⟩ ⟨y, hy⟩ ⟨z, hz⟩ hxy hyz
  rw [← Bool.not_eq_true] at hba hcb ⊢
  intro hca
  have hab : ¬ lt a b = true := fun hab => hcb (htrans hc ha hb hca hab)
  have hbc : ¬ lt b c = true := fun hbc => hba (htrans hb hc ha hbc hca)
  exact (h.incomp_trans ⟨a, ha⟩ ⟨b, hb⟩ ⟨c, hc⟩ ⟨hab, hba⟩ ⟨hbc, hcb⟩).2 hca

theorem OrdersWeakly.not_lt_of_lt (h : OrdersWeakly lt items) {a b : α} (ha : a ∈ items)
    (hb : b ∈ items) (hab : lt a b = true) : lt b a = false := by
  rw [← Bool.not_eq_true]
  exact fun hba => h.irrefl ⟨a, ha⟩ (h.trans ⟨a, ha⟩ ⟨b, hb⟩ ⟨a, ha⟩ hab hba)

/-- An element of the list is before another one. -/
def ComesBefore (lt : α → α → Bool) (items : List α) (a b : α) : Prop :=
  a ∈ items ∧ b ∈ items ∧ lt a b = true

/-- An element of the list is not after another one. -/
def NotAfter (lt : α → α → Bool) (items : List α) (a b : α) : Prop :=
  a ∈ items ∧ b ∈ items ∧ lt b a = false

/-- Merging sorts by a strict weak order. -/
theorem OrdersWeakly.sortedBy (h : OrdersWeakly lt items)
    (hsorted : MergeSorted (ComesBefore lt items) (NotAfter lt items) items sorted) :
    SortedBy lt items sorted := by
  have htrans (a b c : α) (hab : NotAfter lt items a b) (hbc : NotAfter lt items b c) :
      NotAfter lt items a c :=
    ⟨hab.1, hbc.2.1, h.not_lt_trans hab.1 hab.2.1 hbc.2.1 hab.2.2 hbc.2.2⟩
  have hmay (a b : α) (hab : ComesBefore lt items a b) : NotAfter lt items a b :=
    ⟨hab.1, hab.2.1, h.not_lt_of_lt hab.1 hab.2.1 hab.2.2⟩
  have hmixed (a b c : α) (hab : ComesBefore lt items a b) (hbc : NotAfter lt items b c) :
      ComesBefore lt items a c := by
    obtain ⟨ha, hb, hlt⟩ := hab
    obtain ⟨-, hc, hcb⟩ := hbc
    refine ⟨ha, hc, ?_⟩
    cases hac : lt a c with
    | true => rfl
    | false => exact absurd hlt (Bool.eq_false_iff.1 (h.not_lt_trans hb hc ha hcb hac))
  refine ⟨hsorted.perm, (hsorted.pairwise htrans hmay).imp fun hab => hab.2.2, fun e he => ?_⟩
  refine hsorted.filter_eq htrans hmay hmixed fun a b hab ha => ?_
  -- Elements that are tied with the same one are tied.
  obtain ⟨hmemA, hmemB, hlt⟩ := hab
  rw [← Bool.not_eq_true, tied_eq_true_iff]
  intro ⟨heb, _⟩
  obtain ⟨-, hae⟩ := tied_eq_true_iff.1 ha
  exact absurd hlt (Bool.eq_false_iff.1 (h.not_lt_trans hmemB he hmemA heb hae))

end

/-! ### Tests that run -/

/-- Successful tests of elements lead from one world to the other. -/
inductive Tested {α : Type} (before : α → α → Run Bool) (items : List α) (start : World) :
    World → Prop where
  | start : Tested before items start start
  | test {a b : α} {first : Bool} {w w' : World} (h : Tested before items start w)
      (ha : a ∈ items) (hb : b ∈ items) (hrun : (before a b).run.run w = (.ok first, w')) :
      Tested before items start w'

/-- Whatever successful tests have led to, a test says what `lt` says. -/
def Agrees {α : Type} (before : α → α → Run Bool) (lt : α → α → Bool) (items : List α)
    (start : World) : Prop :=
  ∀ w, Tested before items start w → ∀ a ∈ items, ∀ b ∈ items,
    ∃ w', (before a b).run.run w = (.ok (lt a b), w')

section
variable {α : Type} {before : α → α → Run Bool} {lt : α → α → Bool} {items sorted : List α}
  {start w : World}

/-- Worlds that tests lead to, and the failures of tests in these. -/
def Contract.tested (before : α → α → Run Bool) (items : List α) (start : World) : Contract where
  world := Tested before items start
  slot _ := True
  error e w' := ∃ w, Tested before items start w ∧ ∃ a ∈ items, ∃ b ∈ items,
    (before a b).run.run w = (.error e, w')

theorem Contract.keeps_test {a b : α} (ha : a ∈ items) (hb : b ∈ items) :
    (Contract.tested before items start).Keeps (before a b) fun _ => True := by
  intro w hw
  rcases hrun : (before a b).run.run w with ⟨e | first, w'⟩
  · exact ⟨w, hw, a, ha, b, hb, hrun⟩
  · exact ⟨trivial, hw.test ha hb hrun⟩

/-- A sort fails only as a test does, and else leaves a world that tests lead to. -/
theorem Contract.keeps_mergeSort (before : α → α → Run Bool) (items : List α) (start : World) :
    (Contract.tested before items start).Keeps (mergeSort before items) (·.Perm items) := by
  have htest : items.Pairwise fun a b => (Contract.tested before items start).Keeps (before b a)
      fun first => if first then (fun _ _ => True) b a else (fun _ _ => True) a b :=
    List.pairwise_of_forall_mem_list fun a ha b hb =>
      (Contract.keeps_test hb ha).mono fun first _ => by cases first <;> trivial
  exact (Keeps.mergeSort htest).mono fun _ => MergeSorted.perm

/-- A test that agrees with a strict weak order sorts by it. -/
theorem mergeSort_sortedBy (hagrees : Agrees before lt items start) (hlt : OrdersWeakly lt items) :
    ∃ sorted w, (mergeSort before items).run.run start = (.ok sorted, w) ∧
      SortedBy lt items sorted := by
  let agreeing : Contract := ⟨Tested before items start, fun _ => True, fun _ _ => False⟩
  have htest : items.Pairwise fun a b => agreeing.Keeps (before b a) fun first =>
      if first then ComesBefore lt items b a else NotAfter lt items a b := by
    refine List.pairwise_of_forall_mem_list fun a ha b hb w hw => ?_
    obtain ⟨w', hrun⟩ := hagrees w hw b hb a ha
    rw [hrun]
    refine ⟨?_, hw.test hb ha hrun⟩
    show if lt b a = true then ComesBefore lt items b a else NotAfter lt items a b
    split
    · next htrue => exact ⟨hb, ha, htrue⟩
    · next hfalse => exact ⟨ha, hb, Bool.eq_false_iff.2 hfalse⟩
  obtain ⟨sorted, w, hrun, hsorted, -⟩ :=
    (Contract.Keeps.mergeSort htest).exists_ok .start fun _ _ => id
  exact ⟨sorted, w, hrun, hlt.sortedBy hsorted⟩

end

/-! ### Tests without dice -/

section
variable {V : Vocabulary} {hosts : Nat → Prop} {c : Expr} {scope scope' : Scope}
  {items : List Value} {start w w' : World} {a b : Value}

open Builtin

theorem Pact.Corresponds.fst_eq {p : Pact} {now : Pairing} {α : Type}
    {y y' : Except EvalError α × World} (h : p.Corresponds now (fun _ => Eq) y y') :
    y.1 = y'.1 := by
  cases h with
  | ok _ h => rw [h]
  | error => rfl

/-- In two scopes with alike answers a test of known values says the same. -/
theorem Pact.Closed.abreast_test {p : Pact} {now later : Pairing} (hp : p.Closed)
    (hc : c.Within p.toVocabulary) (hs : p.Binds now scope scope')
    (hknown : Names.below p.start.free ≤ now.names) (ha : a.Known p.hosts p.start.free)
    (hb : b.Known p.hosts p.start.free) (hle : now ≤ later) :
    p.Abreast later (precedesBy c.eval scope a b) (precedesBy c.eval scope' a b) fun _ => Eq :=
  (hp.conducts hc).precedesBy (Value.Alike.mono (hknown.trans hle.1) ha)
    (Value.Alike.mono (hknown.trans hle.1) hb) (hs.mono hle)

/-- Where a layer is settled on one side, tests lead on beside each other and say the same. -/
theorem Tested.beside {l : Ahead} {now : Pairing} (h : l.Settles V hosts now scope scope')
    (hp : (l.pact V hosts).Closed) (hc : c.Within V)
    (hitems : ∀ v ∈ items, v.Known hosts l.start.free)
    (hw : Tested (precedesBy c.eval scope) items l.start w) :
    ∃ w', Tested (precedesBy c.eval scope') items { l.start with free := l.limit } w' ∧
      ∀ a ∈ items, ∀ b ∈ items, ((precedesBy c.eval scope a b).run.run w).1 =
        ((precedesBy c.eval scope' a b).run.run w').1 := by
  have htest {later : Pairing} (hle : now ≤ later) (a : Value) (ha : a ∈ items) (b : Value)
      (hb : b ∈ items) := hp.abreast_test hc h.binds h.paired.known (hitems a ha) (hitems b hb) hle
  obtain ⟨later, w', hle, hpaired, htested⟩ : ∃ later w', now ≤ later ∧
      (l.pact V hosts).Paired later w w' ∧
      Tested (precedesBy c.eval scope') items { l.start with free := l.limit } w' := by
    induction hw with
    | start => exact ⟨now, _, le_rfl, h.paired, .start⟩
    | @test a b first w w₁ _ ha hb hrun ih =>
      obtain ⟨later, w', hle, hpaired, htested⟩ := ih
      have hstep := htest hle a ha b hb w w' hpaired
      generalize hrun' : (precedesBy c.eval scope' a b).run.run w' = y' at hstep
      rw [hrun] at hstep
      cases hstep with
      | ok hle' hsame hpaired' => exact ⟨_, _, hle.trans hle', hpaired', htested.test ha hb hrun'⟩
  exact ⟨w', htested, fun a ha b hb => (htest hle a ha b hb w w' hpaired).fst_eq⟩

/-- Without layers, tests lead to worlds in which they say the same as in the first one. -/
theorem Tested.flat (hdice : ¬ V.operator .dice) (hhost : start.Steadfast V hosts)
    (hc : c.Within V) (hscope : scope.Steady V hosts start) (hflat : scope.layers = [])
    (hitems : ∀ v ∈ items, v.Known hosts start.free)
    (hw : Tested (precedesBy c.eval scope) items start w) :
    ∀ a ∈ items, ∀ b ∈ items, ((precedesBy c.eval scope a b).run.run w).1 =
      ((precedesBy c.eval scope a b).run.run start).1 := by
  have htest {w : World} (hanswer : w.answer = start.answer) (hfree : start.free ≤ w.free)
      (hkept : ∀ k n, start.Recalls k n → w.Recalls k n) (a : Value) (ha : a ∈ items) (b : Value)
      (hb : b ∈ items) :
      (Pact.since V hosts start w start.free).Corresponds
        ⟨Names.below start.free, fun _ _ => False⟩ (fun _ => Eq)
        ((precedesBy c.eval scope a b).run.run w)
        ((precedesBy c.eval scope a b).run.run start) := by
    have hp : (Pact.since V hosts start w start.free).Closed :=
      Pact.closed_since hdice hhost w start.free
    exact hp.abreast_test hc (hp.binds_flat hscope hflat le_rfl) le_rfl (hitems a ha)
      (hitems b hb) le_rfl _ _ (Pact.paired_since w hanswer hfree hkept le_rfl)
  obtain ⟨hanswer, hfree, hkept⟩ : w.answer = start.answer ∧ start.free ≤ w.free ∧
      ∀ k n, start.Recalls k n → w.Recalls k n := by
    induction hw with
    | start => exact ⟨rfl, le_rfl, fun _ _ => id⟩
    | @test a b first w w₁ _ ha hb hrun ih =>
      obtain ⟨hanswer, hfree, hkept⟩ := ih
      have hstep := htest hanswer hfree hkept a ha b hb
      generalize (precedesBy c.eval scope a b).run.run start = y' at hstep
      rw [hrun] at hstep
      cases hstep with
      | ok _ _ hpaired => exact ⟨hpaired.answer, hpaired.free_le, hpaired.kept⟩
  exact fun a ha b hb => (htest hanswer hfree hkept a ha b hb).fst_eq

/-- **Without dice a test says the same in all worlds that tests lead to**, if it has said
something for each pair in one of them. -/
theorem Expr.Within.agrees {lt : Value → Value → Bool} (hdice : ¬ V.operator .dice)
    (hhost : start.Steadfast V hosts) (hc : c.Within V) (hscope : scope.Steady V hosts start)
    (hitems : ∀ v ∈ items, v.Known hosts start.free)
    (hlt : ∀ a ∈ items, ∀ b ∈ items, ∃ w, Tested (precedesBy c.eval scope) items start w ∧
      ((precedesBy c.eval scope a b).run.run w).1 = .ok (lt a b)) :
    Agrees (precedesBy c.eval scope) lt items start := by
  induction hcount : scope.layers.length using Nat.strong_induction_on
    generalizing scope start with
  | _ count ih =>
  intro w hw a ha b hb
  suffices hok : ((precedesBy c.eval scope a b).run.run w).1 = .ok (lt a b) from
    ⟨_, Prod.ext hok rfl⟩
  by_cases hflat : scope.layers = []
  · obtain ⟨w₀, hw₀, hok⟩ := hlt a ha b hb
    rw [hw.flat hdice hhost hc hscope hflat hitems a ha b hb,
      ← hw₀.flat hdice hhost hc hscope hflat hitems a ha b hb, hok]
  · obtain ⟨l, now, scope', rfl, h⟩ := hscope.exists_settles hdice hhost hflat
    have hp : (l.pact V hosts).Closed := Ahead.closed_pact hdice hhost
    have hhost' : World.Steadfast V hosts { l.start with free := l.limit } :=
      { same := hhost.same
        known := fun handle key v hhandle hkey hv =>
          (hhost.known handle key v hhandle hkey hv).mono h.room }
    have hagrees : Agrees (precedesBy c.eval scope') lt items { l.start with free := l.limit } := by
      refine ih _ (hcount ▸ h.fewer) hhost' h.steady (fun v hv => (hitems v hv).mono h.room)
        (fun a ha b hb => ?_) rfl
      obtain ⟨w₀, hw₀, hok⟩ := hlt a ha b hb
      obtain ⟨w₀', hw₀', hsame₀⟩ := hw₀.beside h hp hc hitems
      exact ⟨w₀', hw₀', hsame₀ a ha b hb ▸ hok⟩
    obtain ⟨w', hw', hsame⟩ := hw.beside h hp hc hitems
    obtain ⟨w'', hrun⟩ := hagrees w' hw' a ha b hb
    rw [hsame a ha b hb, hrun]

end

/-! ### Expressions as tests -/

namespace Expr

open Builtin

variable {c e : Expr} {scope : Scope} {items : List Value} {w w' : World}

/-- The natural order, written as a test. -/
theorem precedesBy_less (scope : Scope) :
    precedesBy (Expr.binary .less (.name "a") (.name "b")).eval scope = precedes := by
  funext a b
  have heval : (Expr.binary .less (.name "a") (.name "b")).eval (scope.pair a b) =
      BinaryOp.comparison (· == .lt) a b := rfl
  rw [precedesBy, heval, BinaryOp.comparison, precedes]
  cases a.order b with
  | error x => rfl
  | ok o => cases o <;> rfl

theorem run_sort_by (he : (e.eval scope).run.run w = (.ok (.list items), w')) :
    ((call .sort [e, c]).eval scope).run.run w =
      (.list <$> mergeSort (precedesBy c.eval scope) items : Run Value).run.run w' :=
  run_listArgument_bind .sort he fun items => .list <$> mergeSort (precedesBy c.eval scope) items

/-- **Sorting by an expression.** Whatever the test computes, a sort that succeeds has the
elements of the list, and one that fails does so by the first test that fails. Where the tests
say what a strict weak order says, the sort succeeds, in that order and with tied elements as
they stood. A test without dice says the same at all times: then it is enough to have compared
each pair once, in a scope without clauses that would roll dice, and with objects of the host
that do not change their answers. Evaluation keeps what is asked of the scope and the elements
here (`Scope.Steady.eval`). And sorting by `a < b` is sorting by the natural order. -/
theorem eval_sort_by (c e : Expr) (scope : Scope) :
    (∀ items w w', (e.eval scope).run.run w = (.ok (.list items), w') →
      let test := precedesBy c.eval scope
      let run := ((call .sort [e, c]).eval scope).run.run w
      (∀ v w₁, run = (.ok v, w₁) →
        Tested test items w' w₁ ∧ ∃ sorted, v = .list sorted ∧ sorted.Perm items) ∧
      (∀ x w₂, run = (.error x, w₂) → ∃ w₁, Tested test items w' w₁ ∧
        ∃ a ∈ items, ∃ b ∈ items, (test a b).run.run w₁ = (.error x, w₂)) ∧
      (∀ lt, Agrees test lt items w' → OrdersWeakly lt items →
        ∃ sorted w₁, run = (.ok (.list sorted), w₁) ∧ SortedBy lt items sorted) ∧
      ∀ V hosts lt, ¬ V.operator .dice → c.Within V → w'.Steadfast V hosts →
        scope.Steady V hosts w' → (∀ v ∈ items, v.Known hosts w'.free) →
        (∀ a ∈ items, ∀ b ∈ items, ∃ w₁, Tested test items w' w₁ ∧
          ((test a b).run.run w₁).1 = .ok (lt a b)) →
        OrdersWeakly lt items →
        ∃ sorted w₁, run = (.ok (.list sorted), w₁) ∧ SortedBy lt items sorted) ∧
      (call .sort [e, .binary .less (.name "a") (.name "b")]).eval scope =
        (call .sort [e]).eval scope := by
  refine ⟨fun items w w' he => ?_, ?natural⟩
  case natural =>
    have hcall : (call .sort [e, .binary .less (.name "a") (.name "b")]).eval scope = (do
        let items ← Builtin.sort.listArgument e.eval scope
        .list <$> mergeSort (precedesBy
          (Expr.binary .less (.name "a") (.name "b")).eval scope) items) := rfl
    rw [hcall, precedesBy_less]
    rfl
  intro test run
  have hrun : run = (.list <$> mergeSort test items : Run Value).run.run w' := run_sort_by he
  have hkeeps : (Contract.tested test items w').Keeps (.list <$> mergeSort test items : Run Value)
      fun v => ∃ sorted, v = .list sorted ∧ sorted.Perm items :=
    (Contract.keeps_mergeSort test items w').map fun sorted hperm => ⟨sorted, rfl, hperm⟩
  have hsorts (lt : Value → Value → Bool) (hagrees : Agrees test lt items w')
      (hlt : OrdersWeakly lt items) :
      ∃ sorted w₁, run = (.ok (.list sorted), w₁) ∧ SortedBy lt items sorted := by
    obtain ⟨sorted, w₁, hsort, hsorted⟩ := mergeSort_sortedBy hagrees hlt
    refine ⟨sorted, w₁, ?_, hsorted⟩
    rw [hrun]
    exact Run.map_eq_ok_iff.2 ⟨sorted, hsort, rfl⟩
  refine ⟨fun v w₁ h => (hkeeps.of_ok .start (hrun ▸ h)).symm,
    fun x w₂ h => hkeeps.of_error .start (hrun ▸ h), hsorts, ?_⟩
  intro V hosts lt hdice hc hhost hscope hitems htests
  exact hsorts lt (hc.agrees hdice hhost hscope hitems htests)

/-- Lists of tiles by the remainder of their lengths. What the lengths are divided by is a clause
of the scope, which makes tiles of its own when it is first asked for. -/
theorem eval_sort_by_remainder :
    let tile (x : Int64) : Expr := .call .loc [.integer x, .integer 0]
    let row (xs : List Int64) : Expr := .list (xs.map tile)
    let e : Expr := .list [row [0, 1], row [2], row [0, 1, 2], row [5, 6, 7, 8]]
    let rest (name : String) : Expr := .binary .modulo (.call .size [.name name]) (.name "k")
    let c : Expr := .binary .less (rest "a") (rest "b")
    let scope := Scope.layer 0 [("k", .call .distance [tile 0, tile 3])] (.object .nothing)
    let lt (a b : Value) : Bool := decide ((offers a).length % 3 < (offers b).length % 3)
    let w := { World.fresh (.ofWords fun _ => 0) (fun _ _ => .ok .missing) with caches := #[[]] }
    ∃ items sorted w', (e.eval scope).run.run w = (.ok (.list items), w') ∧
      (((call .sort [e, c]).eval scope).run.run w).1 = .ok (.list sorted) ∧
      SortedBy lt items sorted := by
  intro tile row e rest c scope lt w
  let object (identity : Nat) (x : Int64) : Value := .object identity (.tile ⟨x, 0⟩)
  let items : List Value := [.list [object 0 0, object 1 1], .list [object 2 2],
    .list [object 3 0, object 4 1, object 5 2],
    .list [object 6 5, object 7 6, object 8 7, object 9 8]]
  let w' := { w with free := 10 }
  have he : (e.eval scope).run.run w = (.ok (.list items), w') := by cbv
  have hoperator (op : BinaryOp) (hop : op ≠ .dice) : Vocabulary.diceless.operator op := hop
  have htile (x : Int64) : (tile x).Within .diceless :=
    .call trivial (List.forall_mem_cons.2 ⟨.integer x, List.forall_mem_singleton.2 (.integer 0)⟩)
  have hrest (name : String) : (rest name).Within .diceless :=
    .binary (hoperator .modulo (by decide))
      (.call trivial (List.forall_mem_singleton.2 (.name trivial))) (.name trivial)
  have hc : c.Within .diceless := .binary (hoperator .less (by decide)) (hrest "a") (hrest "b")
  have hserves : w.Serves .diceless (fun _ => False) 0 [("k", .call .distance [tile 0, tile 3])] :=
    { size := by decide
      entries := fun _ hentry => absurd hentry List.not_mem_nil
      clauses := fun n e _ he => by
        obtain ⟨-, rfl⟩ := Prod.mk.inj (List.mem_singleton.1 (mem_of_lookup he))
        exact .inr (.call trivial (List.forall_mem_cons.2
          ⟨htile 0, List.forall_mem_singleton.2 (htile 3)⟩)) }
  have hrow (xs : List Int64) : (row xs).Within .diceless :=
    .list (List.forall_mem_map.2 fun x _ => htile x)
  have hwithin : e.Within .diceless := by
    refine .list ?_
    simp only [List.forall_mem_cons]
    exact ⟨hrow _, hrow _, hrow _, hrow _, List.forall_mem_nil _⟩
  -- What holds of the scope in the beginning holds after the list has been made.
  obtain ⟨hsteady, hhost, hitems⟩ := Scope.Steady.eval
    (.layer hserves List.not_mem_nil (.object .nothing)) (.clauses (.object _) List.not_mem_nil)
    ⟨fun _ _ _ h => h.elim, fun _ _ _ h => h.elim⟩ hwithin.rolling he
  have hlt : ∀ a ∈ items, ∀ b ∈ items,
      ((precedesBy c.eval scope a b).run.run w').1 = .ok (lt a b) := by
    intro a ha b hb
    simp only [items, List.mem_cons, List.not_mem_nil, or_false] at ha hb
    rcases ha with rfl | rfl | rfl | rfl <;> rcases hb with rfl | rfl | rfl | rfl <;> cbv <;>
      simp [lt, offers, object]
  obtain ⟨sorted, w₁, hrun, hsorted⟩ :=
    ((eval_sort_by c e scope).1 items w w' he).2.2.2 .diceless (fun _ => False) lt
      (fun h => h rfl) hc hhost hsteady (hitems _ rfl).of_list
      (fun a ha b hb => ⟨w', .start, hlt a ha b hb⟩)
      { irrefl := fun a => by simp [lt]
        trans := fun a b c => by simpa [lt] using lt_trans
        incomp_trans := fun a b c => by simp only [lt, decide_eq_true_eq]; omega }
  exact ⟨items, sorted, w', he, congrArg Prod.fst hrun, hsorted⟩

end Expr

end Formulary
