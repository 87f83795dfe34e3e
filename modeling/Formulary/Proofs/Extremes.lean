import Formulary.Proofs.Sorted
import Mathlib

/-! The least and the greatest.

A best value is kept while one candidate after the other is compared with it, and with nothing
else. It still leads all of them: comparisons that go one way can be joined, so what the best
was compared with before is behind it too (`firstLeads_of_foldlM`). The same run finds the least
and the greatest, of values or of things with a value each. As only equal values lead each
other, the least and the greatest do not depend on where the values stood, and where a sort
succeeds they are at its ends (`Extreme.eval_call`). -/
namespace Formulary

namespace Value

/-- Integers can be compared, and texts. -/
theorem comparable_of_kind {kind : Kind} {a b : Value} (hkind : kind = .integer ∨ kind = .text)
    (ha : a.kind = kind) (hb : b.kind = kind) : a.Comparable b := by
  rcases hkind with rfl | rfl <;> cases a <;> cases b <;>
    first | exact ⟨_, rfl⟩ | exact Kind.noConfusion ha | exact Kind.noConfusion hb

end Value

/-! ### A running best -/

section
variable {β : Type} {key : β → Value} {wanted : Ordering} {items : List β} {b : β}
  {best : Option β}

/-- Keep a candidate if it is the first, or its key compares as wanted with that of the best so
far. -/
def lead (key : β → Value) (wanted : Ordering) (best : Option β) (candidate : β) :
    Except EvalError (Option β) :=
  match best with
  | none => .ok (some candidate)
  | some current => do
    let o ← (key candidate).order (key current)
    pure (some (if o = wanted then candidate else current))

/-- The first of the items whose key leads those of all others. -/
def FirstLeads (key : β → Value) (wanted : Ordering) (items : List β) (b : β) : Prop :=
  ∃ before behind, items = before ++ b :: behind ∧
    (∀ x ∈ before, (key b).order (key x) = .ok wanted) ∧
    ∀ x ∈ behind, (key b).Leads wanted (key x)

theorem FirstLeads.mem (h : FirstLeads key wanted items b) : b ∈ items := by
  obtain ⟨before, behind, rfl, -⟩ := h
  exact List.mem_append_right _ List.mem_cons_self

/-- One candidate more. -/
theorem FirstLeads.lead (hwanted : wanted ≠ .eq) (h : FirstLeads key wanted items b) {x : β}
    (hlead : lead key wanted (some b) x = .ok best) :
    ∃ b', best = some b' ∧ FirstLeads key wanted (items ++ [x]) b' := by
  obtain ⟨before, behind, rfl, hbefore, hbehind⟩ := h
  obtain ⟨o, ho, hbest⟩ := bind_eq_ok_iff.1 hlead
  obtain rfl := Except.ok.inj hbest
  refine ⟨_, rfl, ?_⟩
  split
  · next hwin =>
    subst hwin
    refine ⟨before ++ b :: behind, [], rfl, fun y hy => ?_, List.forall_mem_nil _⟩
    rcases List.mem_append.1 hy with hy | hy
    · exact Value.order_of_leads hwanted ho ⟨o, hbefore y hy, .inl rfl⟩
    · rcases List.mem_cons.1 hy with rfl | hy
      · exact ho
      · exact Value.order_of_leads hwanted ho (hbehind y hy)
  · next hlose =>
    refine ⟨before, behind ++ [x], by simp, hbefore, fun y hy => ?_⟩
    rcases List.mem_append.1 hy with hy | hy
    · exact hbehind y hy
    · obtain rfl := List.mem_singleton.1 hy
      refine ⟨_, (Value.ordered_of_order ho).reverse.order_eq, ?_⟩
      cases o <;> cases wanted <;> simp_all

/-- **A running best leads all items**, although it was compared with few of them. -/
theorem firstLeads_of_foldlM (hwanted : wanted ≠ .eq)
    (h : items.foldlM (lead key wanted) none = .ok best) :
    items = [] ∧ best = none ∨ ∃ b, best = some b ∧ FirstLeads key wanted items b := by
  induction items using List.reverseRecOn generalizing best with
  | nil => exact .inl ⟨rfl, (Except.ok.inj h).symm⟩
  | append_singleton items x ih =>
    rw [List.foldlM_append] at h
    obtain ⟨best', hitems, h⟩ := bind_eq_ok_iff.1 h
    obtain ⟨best'', hx, h⟩ := bind_eq_ok_iff.1 h
    obtain rfl := Except.ok.inj h
    right
    rcases ih hitems with ⟨rfl, rfl⟩ | ⟨b, rfl, hb⟩
    · obtain rfl := Except.ok.inj hx
      exact ⟨x, rfl, [], [], rfl, List.forall_mem_nil _, List.forall_mem_nil _⟩
    · exact hb.lead hwanted hx

/-- A best is found if all keys can be compared. -/
theorem foldlM_lead_succeeds (hwanted : wanted ≠ .eq)
    (h : items.Pairwise fun a b => (key a).Comparable (key b)) :
    ∃ best, items.foldlM (lead key wanted) none = .ok best := by
  induction items using List.reverseRecOn with
  | nil => exact ⟨none, rfl⟩
  | append_singleton items x ih =>
    obtain ⟨hitems, -, hx⟩ := List.pairwise_append.1 h
    obtain ⟨best, hbest⟩ := ih hitems
    rw [List.foldlM_append, hbest]
    rcases firstLeads_of_foldlM hwanted hbest with ⟨-, rfl⟩ | ⟨b, rfl, hb⟩
    · exact ⟨some x, rfl⟩
    · obtain ⟨o, ho⟩ := (hx b hb.mem x (List.mem_singleton_self x)).symm
      refine ⟨some (if o = wanted then x else b), ?_⟩
      show (lead key wanted (some b) x >>= pure) = _
      rw [lead, ho]
      rfl

end

/-! ### Leaders -/

/-- The value is in the list and leads all others there. -/
def Leader (wanted : Ordering) (items : List Value) (v : Value) : Prop :=
  ∃ before behind, items = before ++ v :: behind ∧ ∀ x ∈ before ++ behind, v.Leads wanted x

section
variable {wanted : Ordering} {items items' : List Value} {v v' : Value}

theorem FirstLeads.leader (h : FirstLeads id wanted items v) : Leader wanted items v := by
  obtain ⟨before, behind, hitems, hbefore, hbehind⟩ := h
  refine ⟨before, behind, hitems, fun x hx => ?_⟩
  rcases List.mem_append.1 hx with hx | hx
  · exact ⟨wanted, hbefore x hx, .inl rfl⟩
  · exact hbehind x hx

theorem Leader.mem (h : Leader wanted items v) : v ∈ items := by
  obtain ⟨before, behind, rfl, -⟩ := h
  exact List.mem_append_right _ List.mem_cons_self

theorem Leader.eq_or_leads (h : Leader wanted items v) {x : Value} (hx : x ∈ items) :
    x = v ∨ v.Leads wanted x := by
  obtain ⟨before, behind, rfl, hleads⟩ := h
  rcases List.mem_cons.1 (List.perm_middle.subset hx) with heq | hx
  · exact .inl heq
  · exact .inr (hleads x hx)

/-- Lists with the same values have the same leader. -/
theorem Leader.eq_of_perm (hwanted : wanted ≠ .eq) (h : Leader wanted items v)
    (h' : Leader wanted items' v') (hperm : items'.Perm items) : v' = v := by
  rcases h.eq_or_leads (hperm.subset h'.mem) with heq | hleads
  · exact heq
  · rcases h'.eq_or_leads (hperm.symm.subset h.mem) with heq | hleads'
    · exact heq.symm
    · exact hleads'.antisymm hwanted hleads

end

/-! ### Calls of min and max -/

/-- An extreme of values. -/
inductive Extreme where
  | least
  | greatest

namespace Extreme

open Builtin

/-- The function that finds it. -/
def function : Extreme → Builtin
  | least => .min
  | greatest => .max

/-- How it compares with the other values. -/
def wanted : Extreme → Ordering
  | least => .lt
  | greatest => .gt

/-- Where a sorted list has it. -/
def pick : Extreme → List Value → Option Value
  | least => List.head?
  | greatest => List.getLast?

variable (k : Extreme) {items sorted : List Value} {best : Option Value}

theorem wanted_ne_eq : k.wanted ≠ .eq := by
  cases k <;> exact Ordering.noConfusion

theorem better_eq_lead (wanted : Ordering) : better wanted = lead id wanted := by
  funext best candidate
  cases best <;> rfl

/-- What the values offered come to. -/
def outcome (items : List Value) : Except EvalError Value :=
  (fun best => best.getD .missing) <$> items.foldlM (better k.wanted) none

theorem leader_of_outcome (hne : items ≠ []) {v : Value} (h : k.outcome items = .ok v) :
    Leader k.wanted items v := by
  obtain ⟨best, hbest, rfl⟩ := map_eq_ok_iff.1 h
  rw [better_eq_lead] at hbest
  rcases firstLeads_of_foldlM k.wanted_ne_eq hbest with ⟨hnil, -⟩ | ⟨b, rfl, hb⟩
  · exact absurd hnil hne
  · exact hb.leader

theorem exists_outcome (h : items.Pairwise Value.Comparable) : ∃ v, k.outcome items = .ok v := by
  obtain ⟨best, hbest⟩ : ∃ best, items.foldlM (lead id k.wanted) none = .ok best :=
    foldlM_lead_succeeds k.wanted_ne_eq h
  rw [outcome, better_eq_lead, hbest]
  exact ⟨_, rfl⟩

/-- A sorted list has the leader at its end. -/
theorem leader_of_pick (h : sorted.Pairwise Value.AtMost) {v : Value}
    (hpick : k.pick sorted = some v) : Leader k.wanted sorted v := by
  cases k with
  | least =>
    obtain ⟨rest, rfl⟩ := List.head?_eq_some_iff.1 hpick
    refine ⟨[], rest, rfl, fun x hx => ?_⟩
    exact Value.atMost_iff_leads.1 ((List.pairwise_cons.1 h).1 x hx)
  | greatest =>
    obtain ⟨init, rfl⟩ := List.getLast?_eq_some_iff.1 hpick
    refine ⟨init, [], rfl, fun x hx => ?_⟩
    rw [List.append_nil] at hx
    obtain ⟨-, -, hlast⟩ := List.pairwise_append.1 h
    exact (Value.atMost_iff_leads.1 (hlast x hx v (List.mem_singleton_self v))).reverse

/-- Integers and texts have an extreme just if they do not occur together. -/
theorem outcome_fails_iff (h : ∀ x ∈ items, x.kind = .integer ∨ x.kind = .text) :
    (∃ e, k.outcome items = .error e) ↔
      (∃ x ∈ items, x.kind = .integer) ∧ ∃ x ∈ items, x.kind = .text := by
  constructor
  · intro ⟨e, he⟩
    by_contra hmixed
    have hsame : ∃ kind, (kind = .integer ∨ kind = .text) ∧ ∀ x ∈ items, x.kind = kind := by
      by_cases hinteger : ∃ x ∈ items, x.kind = .integer
      · refine ⟨.integer, .inl rfl, fun x hx => (h x hx).resolve_right fun htext => ?_⟩
        exact hmixed ⟨hinteger, x, hx, htext⟩
      · refine ⟨.text, .inr rfl, fun x hx => (h x hx).resolve_left fun hx' => ?_⟩
        exact hinteger ⟨x, hx, hx'⟩
    obtain ⟨kind, hkind, hall⟩ := hsame
    obtain ⟨v, hv⟩ := k.exists_outcome (List.pairwise_of_forall_mem_list fun x hx y hy =>
      Value.comparable_of_kind hkind (hall x hx) (hall y hy))
    exact nomatch he.symm.trans hv
  · intro ⟨⟨x, hx, hinteger⟩, y, hy, htext⟩
    cases hv : k.outcome items with
    | error e => exact ⟨e, rfl⟩
    | ok v =>
      have hleader := k.leader_of_outcome (List.ne_nil_of_mem hx) hv
      have hkind {z : Value} (hz : z ∈ items) : v.kind = z.kind := by
        rcases hleader.eq_or_leads hz with rfl | hleads
        · rfl
        · exact hleads.kind_eq
      exact nomatch hinteger.symm.trans ((hkind hx).symm.trans ((hkind hy).trans htext))

variable {es : List Expr} {vs : List Value} {scope : Scope} {w w' : World}

/-- All values that the arguments offer are candidates, one after the other. -/
theorem run_extreme (wanted : Ordering) (best : Option Value)
    (hes : (es.mapM (Expr.eval · scope)).run.run w = (.ok vs, w')) :
    (((Expr.meanings es).foldlM (fun best (argument : Meaning) => do
        let v ← argument scope
        Run.ofExcept ((offers v).foldlM (better wanted) best)) best).run.run w).1 =
      (vs.flatMap offers).foldlM (better wanted) best := by
  induction es generalizing best vs w with
  | nil =>
    obtain ⟨hvs, -⟩ := Prod.mk.inj hes
    obtain rfl := Except.ok.inj hvs
    rfl
  | cons e es ih =>
    obtain ⟨v, w₁, rest, hv, hrest, rfl⟩ := Run.mapM_cons_eq_ok_iff.1 hes
    rw [Expr.meanings, List.foldlM_cons, List.flatMap_cons, List.foldlM_append, Run.run_bind,
      Run.run_bind, hv]
    simp only [Run.next]
    cases hbest : (offers v).foldlM (better wanted) best with
    | error x => rfl
    | ok best' => exact ih best' hrest

theorem eval_call_eq (hne : es ≠ [])
    (hes : (es.mapM (Expr.eval · scope)).run.run w = (.ok vs, w')) :
    (((Expr.call k.function es).eval scope).run.run w).1 = k.outcome (vs.flatMap offers) := by
  have haccepts : k.function.arity.accepts (Expr.meanings es).length = true := by
    rw [Expr.meanings_eq_map, List.length_map]
    have hpos : 1 ≤ es.length := List.length_pos_iff.2 hne
    cases k <;> exact decide_eq_true hpos
  have hcall : (Expr.call k.function es).eval scope =
      extreme k.wanted (Expr.meanings es) scope := by
    show k.function.apply (Expr.meanings es) scope = _
    rw [apply, if_pos haccepts]
    cases k <;> rfl
  have hrun := run_extreme k.wanted none hes
  rw [hcall, extreme, Run.run_bind, outcome, ← hrun]
  generalize StateT.run _ w = y
  rcases y with ⟨_ | best, w₁⟩ <;> rfl

theorem exists_pick (h : sorted ≠ []) : ∃ v, k.pick sorted = some v := by
  cases k with
  | least => exact ⟨_, List.head?_eq_some_head h⟩
  | greatest => exact ⟨_, List.getLast?_eq_some_getLast h⟩

/-- **The least and the greatest value.** If a call of `min` or `max` succeeds, its result is
among the values offered and leads all others, and a call that is offered the same values in
another order has the same result if it succeeds too. Where these can be sorted, the call
succeeds with the first one of the sorted list, or the last one. If only integers and texts are
offered, it fails just if there are both. If nothing is, the result is 0. -/
theorem eval_call (hne : es ≠ [])
    (hes : (es.mapM (Expr.eval · scope)).run.run w = (.ok vs, w')) :
    let offered := vs.flatMap offers
    let outcome := (((Expr.call k.function es).eval scope).run.run w).1
    (offered ≠ [] → ∀ v, outcome = .ok v → Leader k.wanted offered v) ∧
      (∀ es' vs' scope' u u', es' ≠ [] →
        (es'.mapM (Expr.eval · scope')).run.run u = (.ok vs', u') →
        (vs'.flatMap offers).Perm offered → ∀ v v', outcome = .ok v →
        (((Expr.call k.function es').eval scope').run.run u).1 = .ok v' → v' = v) ∧
      (offered ≠ [] → ∀ e scope' u u' u'' sorted,
        (e.eval scope').run.run u = (.ok (.list offered), u') →
        ((Expr.call .sort [e]).eval scope').run.run u = (.ok (.list sorted), u'') →
        ∃ v, k.pick sorted = some v ∧ outcome = .ok v) ∧
      ((∀ x ∈ offered, x.kind = .integer ∨ x.kind = .text) →
        ((∃ x, outcome = .error x) ↔
          (∃ x ∈ offered, x.kind = .integer) ∧ ∃ x ∈ offered, x.kind = .text)) ∧
      (offered = [] → outcome = .ok (.integer 0)) := by
  intro offered outcome
  have houtcome : outcome = k.outcome offered := k.eval_call_eq hne hes
  rw [houtcome]
  refine ⟨fun hoffered v hv => k.leader_of_outcome hoffered hv, ?permuted, ?sorted,
    k.outcome_fails_iff, fun hnil => by rw [hnil]; rfl⟩
  case permuted =>
    intro es' vs' scope' u u' hne' hes' hperm v v' hv hv'
    rw [k.eval_call_eq hne' hes'] at hv'
    by_cases hnil : offered = []
    · rw [hnil] at hperm hv
      rw [hperm.eq_nil] at hv'
      exact Except.ok.inj (hv'.symm.trans hv)
    · have hnil' : vs'.flatMap offers ≠ [] := fun h => hnil (h ▸ hperm).symm.eq_nil
      exact (k.leader_of_outcome hnil hv).eq_of_perm k.wanted_ne_eq
        (k.leader_of_outcome hnil' hv') hperm
  case sorted =>
    intro hoffered e scope' u u' u'' sorted he hsort
    obtain ⟨sorted', w₁, hmerge, heq⟩ :=
      (Expr.sort_eq_ok_iff he).1 (congrArg Prod.fst hsort)
    obtain rfl := Value.list.inj heq
    obtain ⟨hperm, hsorted⟩ := sorted_of_mergeSort hmerge
    obtain ⟨v, hv⟩ := k.exists_outcome ((mergeSort_succeeds_iff u').1 ⟨sorted, w₁, hmerge⟩)
    have hne' : sorted ≠ [] := fun hnil => hoffered (hnil ▸ hperm.symm).eq_nil
    obtain ⟨v', hpick⟩ := k.exists_pick hne'
    have hsame := (k.leader_of_outcome hoffered hv).eq_of_perm k.wanted_ne_eq
      (k.leader_of_pick hsorted hpick) hperm
    exact ⟨v', hpick, hsame ▸ hv⟩

/-- The greatest of three lists, one of them with an object that no comparison gets to; and an
integer beside a text. -/
theorem greatest_around_object :
    let scope : Scope := .object (.layer [("o", .object 0 .nothing)] .nothing)
    let three : Expr := .list [.integer 3]
    let oneAndObject : Expr := .list [.integer 1, .name "o"]
    let two : Expr := .list [.integer 2]
    let w := World.fresh (.ofWords fun _ => 0) fun _ _ => .ok .missing
    (∃ offered, Leader .gt offered (.list [.integer 3]) ∧
      (((Expr.call .max [.list [oneAndObject, three], .list [two]]).eval scope).run.run w).1 =
        .ok (.list [.integer 3]) ∧
      offered.length = 3) ∧
      ∃ e, (((Expr.call .max [.integer 1, .text "a" []]).eval scope).run.run w).1 = .error e := by
  intro scope three oneAndObject two w
  let three' : Value := .list [.integer 3]
  let oneAndObject' : Value := .list [.integer 1, .object 0 .nothing]
  let two' : Value := .list [.integer 2]
  have hlists : ([.list [oneAndObject, three], .list [two]].mapM (Expr.eval · scope)).run.run w =
      (.ok [.list [oneAndObject', three'], .list [two']], w) := rfl
  have hmixed : ([.integer 1, .text "a" []].mapM (Expr.eval · scope)).run.run w =
      (.ok [.integer 1, .text "a"], w) := rfl
  obtain ⟨hleads, -⟩ := eval_call .greatest (List.cons_ne_nil _ _) hlists
  obtain ⟨-, -, -, hfails, -⟩ := eval_call .greatest (List.cons_ne_nil _ _) hmixed
  refine ⟨⟨_, hleads (List.cons_ne_nil _ _) three' rfl, rfl, rfl⟩, ?_⟩
  refine (hfails ?_).2 ⟨⟨.integer 1, by simp [offers], rfl⟩, .text "a", by simp [offers], rfl⟩
  intro x hx
  have hx : x ∈ [.integer 1, .text "a"] := hx
  fin_cases hx
  · exact .inl rfl
  · exact .inr rfl

end Extreme

end Formulary
