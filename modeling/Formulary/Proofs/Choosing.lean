import Formulary.Proofs.Extremes

/-! Choosing by a score.

The score of each element is run once, in the order of the list, and compared with the best
score so far before the next one is run. So a run of `choose` is a run of all scores followed by
a running best of them, up to the first score that fails or cannot be compared
(`scored_of_foldlM`, `failed_of_foldlM`). Elements that are their own scores are chosen as by
`max` (`chooseBest_value`). -/
namespace Formulary

namespace Builtin

variable {score : Meaning} {scope : Scope} {items : List Value}
  {best best' : Option (Value × Value)} {w w' : World}

/-- Look at one element: run its score and compare it with the best so far. -/
def consider (score : Meaning) (scope : Scope) (best : Option (Value × Value)) (item : Value) :
    Run (Option (Value × Value)) := do
  let s ← forElement score scope item
  Run.ofExcept (lead Prod.fst .gt best (s, item))

theorem chooseBest_eq (score : Meaning) (scope : Scope) (items : List Value) :
    chooseBest score scope items = (do
      let best ← items.foldlM (consider score scope) none
      pure ((best.map Prod.snd).getD .missing)) := by
  refine congrArg (fun step : Option (Value × Value) → Value → Run (Option (Value × Value)) => do
    let best ← items.foldlM step none
    pure ((best.map Prod.snd).getD .missing)) ?_
  funext best item
  rw [consider]
  congr 1
  funext s
  rcases best with _ | ⟨bestScore, chosen⟩
  · rfl
  · simp only [lead]
    cases s.order bestScore with
    | error x => rfl
    | ok o => cases o <;> rfl

/-- A choice that succeeds has run all scores. -/
theorem scored_of_foldlM
    (h : (items.foldlM (consider score scope) best).run.run w = (.ok best', w')) :
    ∃ scores, (items.mapM (forElement score scope)).run.run w = (.ok scores, w') ∧
      (scores.zip items).foldlM (lead Prod.fst .gt) best = .ok best' := by
  induction items generalizing best w with
  | nil =>
    obtain ⟨hbest, rfl⟩ := Prod.mk.inj h
    exact ⟨[], rfl, hbest⟩
  | cons item items ih =>
    rw [List.foldlM_cons, Run.bind_eq_ok_iff] at h
    obtain ⟨best₁, w₁, hitem, hitems⟩ := h
    obtain ⟨s, w₂, hs, hcompared⟩ := Run.bind_eq_ok_iff.1 hitem
    obtain ⟨hlead, rfl⟩ := Run.ofExcept_eq_ok_iff.1 hcompared
    obtain ⟨scores, hscores, hbest⟩ := ih hitems
    refine ⟨s :: scores, Run.mapM_cons_eq_ok_iff.2 ⟨s, w₁, scores, hs, hscores, rfl⟩, ?_⟩
    rw [List.zip_cons_cons, List.foldlM_cons, hlead]
    exact hbest

/-- A choice that fails has run the scores up to one that fails itself, or cannot be compared
with the best before it. -/
theorem failed_of_foldlM {x : EvalError}
    (h : (items.foldlM (consider score scope) best).run.run w = (.error x, w')) :
    ∃ before item behind scores w₁ best₁, items = before ++ item :: behind ∧
      (before.mapM (forElement score scope)).run.run w = (.ok scores, w₁) ∧
      (scores.zip before).foldlM (lead Prod.fst .gt) best = .ok best₁ ∧
      ((forElement score scope item).run.run w₁ = (.error x, w') ∨
        ∃ s, (forElement score scope item).run.run w₁ = (.ok s, w') ∧
          lead Prod.fst .gt best₁ (s, item) = .error x) := by
  induction items generalizing best w with
  | nil => exact nomatch (Prod.mk.inj h).1
  | cons item items ih =>
    rw [List.foldlM_cons, consider, bind_assoc, Run.run_bind] at h
    rcases hs : (forElement score scope item).run.run w with ⟨e | s, w₁⟩
    · rw [hs] at h
      obtain ⟨he, rfl⟩ := Prod.mk.inj h
      obtain rfl := Except.error.inj he
      exact ⟨[], item, items, [], w, best, rfl, rfl, rfl, .inl hs⟩
    · rw [hs, Run.next, Run.run_bind] at h
      cases hlead : lead Prod.fst .gt best (s, item) with
      | error e =>
        rw [hlead] at h
        obtain ⟨he, rfl⟩ := Prod.mk.inj h
        obtain rfl := Except.error.inj he
        exact ⟨[], item, items, [], w, best, rfl, rfl, rfl, .inr ⟨s, hs, hlead⟩⟩
      | ok best₁ =>
        rw [hlead] at h
        obtain ⟨before, failing, behind, scores, w₂, best₂, rfl, hscores, hbest, hfails⟩ := ih h
        refine ⟨item :: before, failing, behind, s :: scores, w₂, best₂, rfl,
          Run.mapM_cons_eq_ok_iff.2 ⟨s, w₁, scores, hs, hscores, rfl⟩, ?_, hfails⟩
        rw [List.zip_cons_cons, List.foldlM_cons, hlead]
        exact hbest

variable {v : Value} {x : EvalError}

/-- The score of each element has been run, and the first one that leads all others decides. -/
theorem scored_of_chooseBest (h : (chooseBest score scope items).run.run w = (.ok v, w')) :
    ∃ scores, (items.mapM (forElement score scope)).run.run w = (.ok scores, w') ∧
      scores.length = items.length ∧
      (items ≠ [] → ∃ s, FirstLeads Prod.fst .gt (scores.zip items) (s, v)) := by
  rw [chooseBest_eq, Run.bind_eq_ok_iff] at h
  obtain ⟨best, w₁, hfold, hresult⟩ := h
  obtain ⟨hv, rfl⟩ := Prod.mk.inj hresult
  obtain ⟨scores, hscores, hbest⟩ := scored_of_foldlM hfold
  have hlength := Run.length_of_mapM hscores
  refine ⟨scores, hscores, hlength, fun hne => ?_⟩
  rcases firstLeads_of_foldlM Ordering.noConfusion hbest with ⟨hnil, -⟩ | ⟨⟨s, chosen⟩, rfl, hs⟩
  · rw [List.zip_eq_nil_iff, ← List.length_eq_zero_iff, hlength, List.length_eq_zero_iff,
      or_self] at hnil
    exact absurd hnil hne
  · obtain rfl := Except.ok.inj hv
    exact ⟨s, hs⟩

/-- The scores have been run up to one that fails, or cannot be compared with an earlier one. -/
theorem failed_of_chooseBest (h : (chooseBest score scope items).run.run w = (.error x, w')) :
    ∃ before item behind scores w₁, items = before ++ item :: behind ∧
      (before.mapM (forElement score scope)).run.run w = (.ok scores, w₁) ∧
      ((forElement score scope item).run.run w₁ = (.error x, w') ∨
        ∃ s, (forElement score scope item).run.run w₁ = (.ok s, w') ∧
          ∃ earlier ∈ scores, s.order earlier = .error x) := by
  rw [chooseBest_eq, Run.run_bind] at h
  rcases hfold : (items.foldlM (consider score scope) none).run.run w with ⟨e | best, w₁⟩
  · rw [hfold] at h
    obtain ⟨he, rfl⟩ := Prod.mk.inj h
    obtain rfl := Except.error.inj he
    obtain ⟨before, item, behind, scores, w₂, best, hitems, hscores, hbest, hfails⟩ :=
      failed_of_foldlM hfold
    refine ⟨before, item, behind, scores, w₂, hitems, hscores, ?_⟩
    rcases hfails with hfails | ⟨s, hs, hlead⟩
    · exact .inl hfails
    · refine .inr ⟨s, hs, ?_⟩
      obtain ⟨-, rfl⟩ | ⟨⟨earlier, chosen⟩, rfl, hfirst⟩ :=
        firstLeads_of_foldlM Ordering.noConfusion hbest
      · cases hlead
      · refine ⟨earlier, (List.of_mem_zip hfirst.mem).1, ?_⟩
        rw [lead] at hlead
        cases horder : s.order earlier with
        | error e =>
          rw [horder] at hlead
          exact congrArg _ (Except.error.inj hlead)
        | ok o =>
          rw [horder] at hlead
          cases hlead
  · rw [hfold] at h
    cases h

/-! ### Elements scored by themselves -/

/-- A value with itself as its score. -/
def withItself (v : Value) : Value × Value := (v, v)

theorem lead_withItself (best : Option Value) (v : Value) :
    lead Prod.fst .gt (best.map withItself) (withItself v) =
      (Option.map withItself) <$> better .gt best v := by
  cases best with
  | none => rfl
  | some b =>
    simp only [Option.map_some, lead, better, withItself]
    cases v.order b with
    | error x => rfl
    | ok o => cases o <;> rfl

/-- Without objects in the list, each element is its own score under the name `value`. -/
theorem foldlM_consider_value (scope : Scope) (best : Option Value)
    (h : ∀ v ∈ items, v.kind ≠ .object) :
    items.foldlM (consider (Expr.name "value").eval scope) (best.map withItself) =
      Run.ofExcept (Option.map withItself <$> items.foldlM (better .gt) best) := by
  induction items generalizing best with
  | nil => rfl
  | cons v items ih =>
    obtain ⟨hv, hitems⟩ := List.forall_mem_cons.1 h
    have hscore : forElement (Expr.name "value").eval scope v = pure v := by
      cases v with
      | object identity o => exact absurd rfl hv
      | integer | text | list => rfl
    have hstep : consider (Expr.name "value").eval scope (best.map withItself) v =
        Run.ofExcept (Option.map withItself <$> better .gt best v) := by
      rw [consider, hscore, pure_bind, ← lead_withItself]
      rfl
    rw [List.foldlM_cons, List.foldlM_cons, hstep]
    cases better .gt best v with
    | error x => rfl
    | ok best' => exact ih best' hitems

theorem chooseBest_value (scope : Scope) (h : ∀ v ∈ items, v.kind ≠ .object) :
    chooseBest (Expr.name "value").eval scope items =
      Run.ofExcept (Extreme.greatest.outcome items) := by
  have hfold := foldlM_consider_value scope none h
  rw [Option.map_none] at hfold
  rw [chooseBest_eq, hfold, Extreme.outcome, Extreme.wanted]
  cases items.foldlM (better .gt) none with
  | error x => rfl
  | ok best => cases best <;> rfl

end Builtin

/-! ### Calls of choose -/

namespace Expr

open Builtin

variable {s e : Expr} {scope : Scope} {items : List Value} {w w' : World}

theorem run_choose (he : (e.eval scope).run.run w = (.ok (.list items), w')) :
    ((call .choose [e, s]).eval scope).run.run w =
      (chooseBest s.eval scope items).run.run w' :=
  run_listArgument_bind .choose he fun items => chooseBest s.eval scope items

/-- The greatest of the elements of one list. -/
theorem run_max (he : (e.eval scope).run.run w = (.ok (.list items), w')) :
    ((call .max [e]).eval scope).run.run w = (Extreme.greatest.outcome items, w') := by
  have hcall : (call .max [e]).eval scope = extreme .gt [e.eval] scope := rfl
  rw [hcall, extreme, Run.run_bind, List.foldlM_cons, Run.run_bind, Run.run_bind, he,
    Extreme.outcome, Extreme.wanted]
  show Run.next _ (Run.next _ (items.foldlM (better .gt) none, w')) = _
  cases items.foldlM (better .gt) none <;> rfl

/-- **Choosing by a score.** A choice that succeeds has run the score of each element once, in
the order of the list, and comes to the first element whose score leads all others. One that
fails has run the scores up to one that fails, or that cannot be compared with an earlier one.
The choice from an empty list is 0. And scored by themselves, elements that are no objects are
chosen as by `max`. -/
theorem eval_choose (s : Expr) (he : (e.eval scope).run.run w = (.ok (.list items), w')) :
    let score := forElement s.eval scope
    let run := ((call .choose [e, s]).eval scope).run.run w
    (∀ v w₁, run = (.ok v, w₁) → ∃ scores,
      (items.mapM score).run.run w' = (.ok scores, w₁) ∧ scores.length = items.length ∧
      (items ≠ [] → ∃ b, FirstLeads Prod.fst .gt (scores.zip items) (b, v))) ∧
      (∀ x w₂, run = (.error x, w₂) → ∃ before item behind scores w₁,
        items = before ++ item :: behind ∧ (before.mapM score).run.run w' = (.ok scores, w₁) ∧
        ((score item).run.run w₁ = (.error x, w₂) ∨ ∃ b, (score item).run.run w₁ = (.ok b, w₂) ∧
          ∃ earlier ∈ scores, b.order earlier = .error x)) ∧
      (items = [] → run = (.ok (.integer 0), w')) ∧
      ((∀ v ∈ items, v.kind ≠ .object) →
        ((call .choose [e, .name "value"]).eval scope).run.run w =
          ((call .max [e]).eval scope).run.run w) := by
  intro score run
  have hrun : run = (chooseBest s.eval scope items).run.run w' := run_choose he
  refine ⟨fun v w₁ h => scored_of_chooseBest (hrun ▸ h),
    fun x w₂ h => failed_of_chooseBest (hrun ▸ h), fun hnil => ?_, fun hobject => ?_⟩
  · rw [hrun, hnil]
    rfl
  · rw [run_choose he, run_max he, chooseBest_value scope hobject]
    rfl

/-- The number that is farthest from 0, of two the first; and the greatest number. -/
theorem eval_choose_abs :
    let numbers : List Int64 := [3, -4, 4, 1]
    let e : Expr := .list (numbers.map .integer)
    let scope : Scope := .object .nothing
    let w := World.fresh (.ofWords fun _ => 0) fun _ _ => .ok .missing
    (((call .choose [e, .call .abs [.name "value"]]).eval scope).run.run w).1 =
        .ok (.integer (-4)) ∧
      (∃ (scores : List Value) (b : Value), scores.length = 4 ∧
        FirstLeads Prod.fst .gt (scores.zip (numbers.map Value.integer)) (b, .integer (-4))) ∧
      ((call .choose [e, .name "value"]).eval scope).run.run w =
        ((call .max [e]).eval scope).run.run w := by
  intro numbers e scope w
  have he : (e.eval scope).run.run w = (.ok (.list (numbers.map .integer)), w) := rfl
  have hrun : ((call .choose [e, .call .abs [.name "value"]]).eval scope).run.run w =
      (.ok (.integer (-4)), w) := rfl
  obtain ⟨hsucceeds, -, -, hvalue⟩ := eval_choose (.call .abs [.name "value"]) he
  obtain ⟨scores, -, hlength, hfirst⟩ := hsucceeds _ _ hrun
  obtain ⟨b, hb⟩ := hfirst (List.cons_ne_nil _ _)
  refine ⟨congrArg Prod.fst hrun, ⟨scores, b, hlength, hb⟩, hvalue ?_⟩
  exact List.forall_mem_map.2 fun n _ => Kind.noConfusion

end Expr

end Formulary
