import Formulary.Proofs.Sorted

/-! Filtering, finding and mapping.

All three run one expression for the elements of a list, from the first on, and look at its
integers: `Marks` says what these are. A filter runs the expression for every element, as `map`
does, and keeps those with a mark other than 0 (`keep_eq_ok_iff`). A search stops at the first
of them (`findM?_of_first`), so it finds what a filter would keep first (`findM?_of_marks`), and
also where a filter would fail behind it. -/
namespace Formulary

/-- Only an integer has a truth value. -/
theorem Value.truth_eq_ok_iff {v : Value} {b : Bool} :
    v.truth = .ok b ↔ ∃ n, v = .integer n ∧ b = decide (n ≠ 0) := by
  constructor
  · intro h
    cases v with
    | integer n => exact ⟨n, rfl, (Except.ok.inj h).symm⟩
    | text | list | object => cases h
  · rintro ⟨n, rfl, rfl⟩
    rfl

namespace Builtin

variable {condition : Meaning} {scope : Scope} {items before behind : List Value} {item v : Value}
  {n : Int64} {ns ms : List Int64} {b : Bool} {x : EvalError} {w w' w₁ w₂ : World}

/-- For these elements, one after the other, the condition comes to these integers. -/
def Marks (condition : Meaning) (scope : Scope) (items : List Value) (ns : List Int64)
    (w w' : World) : Prop :=
  (items.mapM (forElement condition scope)).run.run w = (.ok (ns.map Value.integer), w')

/-- The elements whose marks are not 0. -/
def kept (items : List Value) (ns : List Int64) : List Value :=
  ((items.zip ns).filter fun marked => marked.2 ≠ 0).map Prod.fst

theorem kept_cons (item : Value) (items : List Value) (n : Int64) (ns : List Int64) :
    kept (item :: items) (n :: ns) =
      if decide (n ≠ 0) then item :: kept items ns else kept items ns := by
  rw [kept, List.zip_cons_cons, List.filter_cons]
  split <;> rfl

/-! ### Marks -/

theorem marks_nil_iff : Marks condition scope [] ns w w' ↔ ns = [] ∧ w' = w := by
  constructor
  · intro h
    obtain ⟨hns, rfl⟩ := Prod.mk.inj h
    exact ⟨List.map_eq_nil_iff.1 (Except.ok.inj hns).symm, rfl⟩
  · rintro ⟨rfl, rfl⟩
    rfl

theorem marks_cons_iff : Marks condition scope (item :: items) ns w w' ↔
    ∃ n rest w₁, (forElement condition scope item).run.run w = (.ok (.integer n), w₁) ∧
      Marks condition scope items rest w₁ w' ∧ ns = n :: rest := by
  rw [Marks, Run.mapM_cons_eq_ok_iff]
  constructor
  · intro ⟨v, w₁, vs, hv, hvs, hns⟩
    cases ns with
    | nil => cases hns
    | cons n ns =>
      obtain ⟨rfl, rfl⟩ := List.cons.inj hns
      exact ⟨n, ns, w₁, hv, hvs, rfl⟩
  · intro ⟨n, rest, w₁, hn, hrest, hns⟩
    exact ⟨.integer n, w₁, rest.map .integer, hn, hrest, hns ▸ rfl⟩

theorem Marks.append (h : Marks condition scope before ns w w₁)
    (h' : Marks condition scope items ms w₁ w') :
    Marks condition scope (before ++ items) (ns ++ ms) w w' := by
  induction before generalizing ns w with
  | nil =>
    obtain ⟨rfl, rfl⟩ := marks_nil_iff.1 h
    exact h'
  | cons item before ih =>
    obtain ⟨n, rest, w₂, hn, hrest, rfl⟩ := marks_cons_iff.1 h
    exact marks_cons_iff.2 ⟨n, rest ++ ms, w₂, hn, ih hrest, rfl⟩

/-! ### One element -/

theorem holdsFor_eq_ok_iff : (holdsFor condition scope item).run.run w = (.ok b, w') ↔
    ∃ n, (forElement condition scope item).run.run w = (.ok (.integer n), w') ∧
      b = decide (n ≠ 0) := by
  rw [holdsFor, Run.bind_eq_ok_iff]
  constructor
  · intro ⟨v, w₁, hv, h⟩
    obtain ⟨htruth, rfl⟩ := Run.ofExcept_eq_ok_iff.1 h
    obtain ⟨n, rfl, hn⟩ := Value.truth_eq_ok_iff.1 htruth
    exact ⟨n, hv, hn⟩
  · intro ⟨n, hn, hb⟩
    have htruth := Value.truth_eq_ok_iff.2 ⟨n, rfl, hb⟩
    exact ⟨.integer n, w', hn, Run.ofExcept_eq_ok_iff.2 ⟨htruth, rfl⟩⟩

theorem holdsFor_of_mark
    (hn : (forElement condition scope item).run.run w = (.ok (.integer n), w')) :
    (holdsFor condition scope item).run.run w = (.ok (decide (n ≠ 0)), w') :=
  holdsFor_eq_ok_iff.2 ⟨n, hn, rfl⟩

/-! ### Filters -/

/-- The elements for which the condition holds. -/
def keep (condition : Meaning) (scope : Scope) (items : List Value) : Run (List Value) :=
  items.filterMapM fun item => do
    if ← holdsFor condition scope item then pure (some item) else pure none

theorem keep_cons (condition : Meaning) (scope : Scope) (item : Value) (items : List Value) :
    keep condition scope (item :: items) = (do
      let holds ← holdsFor condition scope item
      let rest ← keep condition scope items
      pure (if holds then item :: rest else rest)) := by
  rw [keep, List.filterMapM_cons, bind_assoc]
  congr 1
  funext holds
  cases holds with
  | true => rfl
  | false => exact (bind_pure _).symm

/-- A filter succeeds just if the condition comes to integers only. -/
theorem keep_eq_ok_iff {vs : List Value} :
    (keep condition scope items).run.run w = (.ok vs, w') ↔
      ∃ ns, Marks condition scope items ns w w' ∧ vs = kept items ns := by
  induction items generalizing w vs with
  | nil =>
    constructor
    · intro h
      obtain ⟨hvs, rfl⟩ := Prod.mk.inj h
      exact ⟨[], rfl, (Except.ok.inj hvs).symm⟩
    · rintro ⟨ns, hns, rfl⟩
      obtain ⟨rfl, rfl⟩ := marks_nil_iff.1 hns
      rfl
  | cons item items ih =>
    rw [keep_cons, Run.bind_eq_ok_iff]
    constructor
    · rintro ⟨holds, w₁, hitem, hitems⟩
      obtain ⟨rest, w₂, hrest, hresult⟩ := Run.bind_eq_ok_iff.1 hitems
      obtain ⟨hvs, rfl⟩ := Prod.mk.inj hresult
      obtain rfl := Except.ok.inj hvs
      obtain ⟨n, hn, rfl⟩ := holdsFor_eq_ok_iff.1 hitem
      obtain ⟨ns, hns, rfl⟩ := ih.1 hrest
      exact ⟨n :: ns, marks_cons_iff.2 ⟨n, ns, w₁, hn, hns, rfl⟩, (kept_cons _ _ _ _).symm⟩
    · rintro ⟨ns, hns, rfl⟩
      obtain ⟨n, rest, w₁, hn, hrest, rfl⟩ := marks_cons_iff.1 hns
      refine ⟨decide (n ≠ 0), w₁, holdsFor_of_mark hn, Run.bind_eq_ok_iff.2
        ⟨kept items rest, w', ih.2 ⟨rest, hrest, rfl⟩, ?_⟩⟩
      rw [kept_cons]
      rfl

/-- A filter fails with the first element that the condition fails for. -/
theorem keep_eq_error (hbefore : Marks condition scope before ns w w₁)
    (hitem : (holdsFor condition scope item).run.run w₁ = (.error x, w₂)) :
    (keep condition scope (before ++ item :: behind)).run.run w = (.error x, w₂) := by
  induction before generalizing ns w with
  | nil =>
    obtain ⟨rfl, rfl⟩ := marks_nil_iff.1 hbefore
    rw [List.nil_append, keep_cons, Run.run_bind, hitem]
    rfl
  | cons first before ih =>
    obtain ⟨n, rest, w₃, hn, hrest, rfl⟩ := marks_cons_iff.1 hbefore
    rw [List.cons_append, keep_cons, Run.run_bind, holdsFor_of_mark hn, Run.next, Run.run_bind,
      ih hrest]
    rfl

/-! ### Searches -/

theorem findM?_cons (condition : Meaning) (scope : Scope) (item : Value) (items : List Value) :
    (item :: items).findM? (holdsFor condition scope) = (do
      let holds ← holdsFor condition scope item
      if holds then pure (some item) else items.findM? (holdsFor condition scope)) := by
  rw [List.findM?]
  congr 1
  funext holds
  cases holds <;> rfl

/-- A search goes on behind elements with the mark 0. -/
theorem findM?_of_zeros (hbefore : Marks condition scope before (before.map fun _ => 0) w w₁)
    (items : List Value) :
    ((before ++ items).findM? (holdsFor condition scope)).run.run w =
      (items.findM? (holdsFor condition scope)).run.run w₁ := by
  induction before generalizing w with
  | nil =>
    obtain ⟨-, rfl⟩ := marks_nil_iff.1 hbefore
    rfl
  | cons first before ih =>
    obtain ⟨n, rest, w₂, hn, hrest, hzeros⟩ := marks_cons_iff.1 hbefore
    obtain ⟨rfl, rfl⟩ := List.cons.inj hzeros
    rw [List.cons_append, findM?_cons, Run.run_bind, holdsFor_of_mark hn]
    exact ih hrest

/-- A search ends at the first element with a mark other than 0. -/
theorem findM?_of_first (hbefore : Marks condition scope before (before.map fun _ => 0) w w₁)
    (hitem : (forElement condition scope item).run.run w₁ = (.ok (.integer n), w₂)) (hn : n ≠ 0)
    (behind : List Value) :
    ((before ++ item :: behind).findM? (holdsFor condition scope)).run.run w =
      (.ok (some item), w₂) := by
  rw [findM?_of_zeros hbefore, findM?_cons, Run.run_bind, holdsFor_of_mark hitem,
    decide_eq_true hn]
  rfl

theorem findM?_eq_some_iff :
    (items.findM? (holdsFor condition scope)).run.run w = (.ok (some v), w') ↔
      ∃ before behind n w₁, items = before ++ v :: behind ∧
        Marks condition scope before (before.map fun _ => 0) w w₁ ∧
        (forElement condition scope v).run.run w₁ = (.ok (.integer n), w') ∧ n ≠ 0 := by
  constructor
  · intro h
    induction items generalizing w with
    | nil => cases h
    | cons item items ih =>
      rw [findM?_cons, Run.bind_eq_ok_iff] at h
      obtain ⟨holds, w₁, hitem, h⟩ := h
      obtain ⟨n, hn, rfl⟩ := holdsFor_eq_ok_iff.1 hitem
      by_cases hzero : n = 0
      · rw [decide_eq_false (not_not.2 hzero)] at h
        obtain ⟨before, behind, m, w₂, rfl, hbefore, hv, hm⟩ := ih h
        refine ⟨item :: before, behind, m, w₂, rfl, ?_, hv, hm⟩
        exact marks_cons_iff.2 ⟨0, _, w₁, hzero ▸ hn, hbefore, rfl⟩
      · rw [decide_eq_true hzero] at h
        obtain ⟨hv, rfl⟩ := Prod.mk.inj h
        obtain rfl := Option.some.inj (Except.ok.inj hv)
        exact ⟨[], items, n, w, rfl, rfl, hn, hzero⟩
  · rintro ⟨before, behind, n, w₁, rfl, hbefore, hv, hn⟩
    exact findM?_of_first hbefore hv hn behind

theorem findM?_eq_none_iff :
    (items.findM? (holdsFor condition scope)).run.run w = (.ok none, w') ↔
      Marks condition scope items (items.map fun _ => 0) w w' := by
  constructor
  · intro h
    induction items generalizing w with
    | nil =>
      obtain ⟨-, rfl⟩ := Prod.mk.inj h
      rfl
    | cons item items ih =>
      rw [findM?_cons, Run.bind_eq_ok_iff] at h
      obtain ⟨holds, w₁, hitem, h⟩ := h
      obtain ⟨n, hn, rfl⟩ := holdsFor_eq_ok_iff.1 hitem
      by_cases hzero : n = 0
      · rw [decide_eq_false (not_not.2 hzero)] at h
        exact marks_cons_iff.2 ⟨0, _, w₁, hzero ▸ hn, ih h, rfl⟩
      · rw [decide_eq_true hzero] at h
        cases h
  · intro h
    have hall := findM?_of_zeros h []
    rwa [List.append_nil] at hall

/-- A search finds the first element that a filter would keep. -/
theorem findM?_of_marks (h : Marks condition scope items ns w w') :
    ∃ w₁, (items.findM? (holdsFor condition scope)).run.run w =
      (.ok (kept items ns).head?, w₁) := by
  induction items generalizing ns w with
  | nil =>
    exact ⟨w, rfl⟩
  | cons item items ih =>
    obtain ⟨n, rest, w₁, hn, hrest, rfl⟩ := marks_cons_iff.1 h
    rw [findM?_cons, Run.run_bind, holdsFor_of_mark hn, kept_cons]
    cases decide (n ≠ 0) with
    | true => exact ⟨w₁, rfl⟩
    | false => exact ih hrest

end Builtin

/-! ### Calls of filter, find and map -/

namespace Expr

open Builtin

section
variable {p e : Expr} {scope : Scope} {items : List Value} {v : Value} {w w' w₁ : World}

theorem run_filter (he : (e.eval scope).run.run w = (.ok (.list items), w')) :
    ((call .filter [e, p]).eval scope).run.run w =
      (.list <$> keep p.eval scope items : Run Value).run.run w' :=
  run_listArgument_bind .filter he fun items => .list <$> keep p.eval scope items

theorem run_find (he : (e.eval scope).run.run w = (.ok (.list items), w')) :
    ((call .find [e, p]).eval scope).run.run w =
      ((Option.getD · .missing) <$> items.findM? (holdsFor p.eval scope) :
        Run Value).run.run w' :=
  run_listArgument_bind .find he fun items =>
    (Option.getD · .missing) <$> items.findM? (holdsFor p.eval scope)

theorem run_map (he : (e.eval scope).run.run w = (.ok (.list items), w')) :
    ((call .map [e, p]).eval scope).run.run w =
      (.list <$> items.mapM (forElement p.eval scope) : Run Value).run.run w' :=
  run_listArgument_bind .map he fun items => .list <$> items.mapM (forElement p.eval scope)

theorem filter_eq_ok_iff (he : (e.eval scope).run.run w = (.ok (.list items), w')) :
    ((call .filter [e, p]).eval scope).run.run w = (.ok v, w₁) ↔
      ∃ ns, Marks p.eval scope items ns w' w₁ ∧ v = .list (kept items ns) := by
  rw [run_filter he, Run.map_eq_ok_iff]
  simp only [keep_eq_ok_iff]
  constructor
  · rintro ⟨_, ⟨ns, hns, rfl⟩, hv⟩
    exact ⟨ns, hns, hv⟩
  · intro ⟨ns, hns, hv⟩
    exact ⟨_, ⟨ns, hns, rfl⟩, hv⟩

/-- The filter fails with the first element that its condition fails for. -/
theorem filter_eq_error {before behind : List Value} {item : Value} {ns : List Int64}
    {x : EvalError} {w₂ : World}
    (he : (e.eval scope).run.run w = (.ok (.list (before ++ item :: behind)), w'))
    (hbefore : Marks p.eval scope before ns w' w₁)
    (hitem : (holdsFor p.eval scope item).run.run w₁ = (.error x, w₂)) :
    ((call .filter [e, p]).eval scope).run.run w = (.error x, w₂) := by
  rw [run_filter he, ← bind_pure_comp, Run.run_bind, keep_eq_error hbefore hitem]
  rfl

theorem find_eq_ok_iff (he : (e.eval scope).run.run w = (.ok (.list items), w')) :
    ((call .find [e, p]).eval scope).run.run w = (.ok v, w₁) ↔
      (∃ before behind n w₂, items = before ++ v :: behind ∧
        Marks p.eval scope before (before.map fun _ => 0) w' w₂ ∧
        (forElement p.eval scope v).run.run w₂ = (.ok (.integer n), w₁) ∧ n ≠ 0) ∨
      v = .integer 0 ∧ Marks p.eval scope items (items.map fun _ => 0) w' w₁ := by
  rw [run_find he, Run.map_eq_ok_iff, ← findM?_eq_some_iff, ← findM?_eq_none_iff]
  constructor
  · rintro ⟨_ | found, h, rfl⟩
    · exact .inr ⟨rfl, h⟩
    · exact .inl h
  · rintro (h | ⟨rfl, h⟩)
    · exact ⟨some v, h, rfl⟩
    · exact ⟨none, h, rfl⟩

theorem find_of_marks (he : (e.eval scope).run.run w = (.ok (.list items), w'))
    {ns : List Int64} (h : Marks p.eval scope items ns w' w₁) :
    ∃ w₂, ((call .find [e, p]).eval scope).run.run w =
      (.ok ((kept items ns).head?.getD (.integer 0)), w₂) := by
  obtain ⟨w₂, hfound⟩ := findM?_of_marks h
  rw [run_find he]
  exact ⟨w₂, Run.map_eq_ok_iff.2 ⟨_, hfound, rfl⟩⟩

theorem map_integers_iff (he : (e.eval scope).run.run w = (.ok (.list items), w'))
    {ns : List Int64} :
    ((call .map [e, p]).eval scope).run.run w = (.ok (.list (ns.map .integer)), w₁) ↔
      Marks p.eval scope items ns w' w₁ := by
  rw [run_map he, Run.map_eq_ok_iff]
  constructor
  · rintro ⟨vs, hvs, hlist⟩
    rw [Marks, Value.list.inj hlist]
    exact hvs
  · exact fun h => ⟨_, h, rfl⟩

end

/-- **Filtering, finding and mapping.** A filter succeeds just if `map` comes to integers only,
with the same world after it, and keeps the elements at whose places these are not 0. A search
runs the condition up to the first integer that is not 0 and gives the element there, or 0 behind
the last element. So it gives the first element that a filter keeps, and also where the filter
fails behind it. -/
theorem eval_filter_find_map {e : Expr} {scope : Scope} {items : List Value} {w w' : World}
    (p : Expr) (he : (e.eval scope).run.run w = (.ok (.list items), w')) :
    let outcome (f : Builtin) := ((call f [e, p]).eval scope).run.run w
    let mark := forElement p.eval scope
    let zeros (items : List Value) : List Int64 := items.map fun _ => 0
    (∀ v w₁, outcome .filter = (.ok v, w₁) ↔
      ∃ ns : List Int64, outcome .map = (.ok (.list (ns.map .integer)), w₁) ∧
        ns.length = items.length ∧ v = .list (kept items ns)) ∧
      (∀ v w₁, outcome .find = (.ok v, w₁) ↔
        (∃ before behind n w₂, items = before ++ v :: behind ∧
          Marks p.eval scope before (zeros before) w' w₂ ∧
          (mark v).run.run w₂ = (.ok (.integer n), w₁) ∧ n ≠ 0) ∨
        v = .integer 0 ∧ Marks p.eval scope items (zeros items) w' w₁) ∧
      (∀ vs w₁, outcome .filter = (.ok (.list vs), w₁) →
        ∃ w₂, outcome .find = (.ok (vs.head?.getD (.integer 0)), w₂)) ∧
      ∀ before item between failing behind n ns x w₁ w₂ w₃ w₄,
        items = before ++ item :: (between ++ failing :: behind) →
        Marks p.eval scope before (zeros before) w' w₁ →
        (mark item).run.run w₁ = (.ok (.integer n), w₂) → n ≠ 0 →
        Marks p.eval scope between ns w₂ w₃ →
        (holdsFor p.eval scope failing).run.run w₃ = (.error x, w₄) →
        outcome .find = (.ok item, w₂) ∧ outcome .filter = (.error x, w₄) := by
  intro outcome mark zeros
  refine ⟨fun v w₁ => ?_, fun v w₁ => find_eq_ok_iff he, fun vs w₁ h => ?_, ?_⟩
  · simp only [outcome, filter_eq_ok_iff he, map_integers_iff he]
    constructor
    · rintro ⟨ns, hns, hv⟩
      have hlength := Run.length_of_mapM hns
      exact ⟨ns, hns, List.length_map Value.integer ▸ hlength, hv⟩
    · rintro ⟨ns, hns, -, hv⟩
      exact ⟨ns, hns, hv⟩
  · obtain ⟨ns, hns, hvs⟩ := (filter_eq_ok_iff he).1 h
    obtain rfl := Value.list.inj hvs
    exact find_of_marks he hns
  · rintro before item between failing behind n ns x w₁ w₂ w₃ w₄ rfl hbefore hitem hn hbetween
      hfailing
    have hmarks := hbefore.append (marks_cons_iff.2 ⟨n, ns, w₂, hitem, hbetween, rfl⟩)
    refine ⟨(find_eq_ok_iff he).2 (.inl ⟨before, _, n, w₁, rfl, hbefore, hitem, hn⟩), ?_⟩
    rw [← List.cons_append, ← List.append_assoc] at he
    exact filter_eq_error he hmarks hfailing

/-- Elements times what a coin shows, which is 0, then 1, then 0. A text cannot be multiplied. -/
theorem search_before_text :
    let coin : Expr := .binary .subtract (.binary .dice (.integer 1) (.integer 2)) (.integer 1)
    let p : Expr := .binary .multiply (.name "value") coin
    let scope : Scope := .object .nothing
    let after (state : Nat) : World :=
      { World.fresh (.ofWords UInt64.ofNat) fun _ _ => .ok .missing with state := state }
    let outcome (f : Builtin) (e : Expr) := ((call f [e, p]).eval scope).run.run (after 0)
    let numbers : Expr := .list [.integer 5, .integer 6, .integer 7]
    let mixed : Expr := .list [.integer 5, .integer 6, .text "a" []]
    let fails : EvalError := .typeMismatch (.only .integer) .text (.operator .multiply)
    outcome .map numbers = (.ok (.list [.integer 0, .integer 6, .integer 0]), after 3) ∧
      outcome .filter numbers = (.ok (.list [.integer 6]), after 3) ∧
      (∃ w, outcome .find numbers = (.ok (.integer 6), w)) ∧
      outcome .find mixed = (.ok (.integer 6), after 2) ∧
      outcome .filter mixed = (.error fails, after 3) := by
  intro coin p scope after outcome numbers mixed fails
  have hnumbers : (numbers.eval scope).run.run (after 0) =
      (.ok (.list [.integer 5, .integer 6, .integer 7]), after 0) := rfl
  have hmixed : (mixed.eval scope).run.run (after 0) =
      (.ok (.list [.integer 5, .integer 6, .text "a"]), after 0) := rfl
  have hmap : outcome .map numbers =
      (.ok (.list [.integer 0, .integer 6, .integer 0]), after 3) := by
    -- Numbers are computed only in terms without local names.
    dsimp only [outcome, numbers, p, coin, scope, after]
    rfl
  have hzero : Marks p.eval scope [.integer 5] [0] (after 0) (after 1) := by
    dsimp only [p, coin, scope, after]
    rfl
  have hsix : (forElement p.eval scope (.integer 6)).run.run (after 1) =
      (.ok (.integer 6), after 2) := by
    dsimp only [p, coin, scope, after]
    rfl
  have htext : (holdsFor p.eval scope (.text "a")).run.run (after 2) =
      (.error fails, after 3) := by
    dsimp only [p, coin, scope, after, fails]
    rfl
  obtain ⟨hfilter, -, hfind, -⟩ := eval_filter_find_map p hnumbers
  obtain ⟨-, -, -, hsearch⟩ := eval_filter_find_map p hmixed
  have hkept := (hfilter _ _).2 ⟨[0, 6, 0], hmap, rfl, rfl⟩
  exact ⟨hmap, hkept, hfind _ _ hkept,
    hsearch [.integer 5] _ [] _ [] 6 [] _ _ _ _ _ rfl hzero hsix (by decide) rfl htext⟩

end Expr

end Formulary
