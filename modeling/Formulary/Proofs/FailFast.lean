import Formulary.Formula
import Formulary.Proofs.Bond
import Mathlib

/-! The first failure of the host ends an evaluation.

Of the look-ups that a run has made, the host has answered all, or all but the last
(`Contract.answered`); then the run has failed with just the error of the host. And up to
that look-up the run is the same for every host that has answered the same before it: two
runs part only where the answers do, with a common log (`Bond.following`). So no construct
hides, replaces or defers an error of the host (`Formula.failure_ends_run`). -/
namespace Formulary

/-! ### All look-ups but the last are answered -/

/-- The host has answered all look-ups after the first `since`. -/
def Answered (answer : Array Lookup → Lookup → Except EvalError Value) (since : Nat)
    (log : Array Lookup) : Prop :=
  ∀ earlier lookup, since ≤ earlier.size → (earlier.push lookup).toList <+: log.toList →
    ∃ v, answer earlier lookup = .ok v

/-- A look-up in a log that goes on by one is that one or an earlier one. -/
theorem push_prefix_push {earlier log : Array Lookup} {lookup last : Lookup}
    (h : (earlier.push lookup).toList <+: (log.push last).toList) :
    earlier = log ∧ lookup = last ∨ (earlier.push lookup).toList <+: log.toList := by
  have hconcat : (log.push last).toList = log.toList ++ [last] := Array.toList_push
  rw [hconcat, List.prefix_concat_iff, ← hconcat] at h
  exact h.imp_left fun h => (Array.push_eq_push.1 (Array.toList_inj.1 h)).symm

theorem Answered.push {answer : Array Lookup → Lookup → Except EvalError Value} {since : Nat}
    {log : Array Lookup} {last : Lookup} {v : Value} (h : Answered answer since log)
    (hlast : answer log last = .ok v) : Answered answer since (log.push last) := by
  intro earlier lookup hsince hmade
  rcases push_prefix_push hmade with ⟨rfl, rfl⟩ | hmade
  · exact ⟨v, hlast⟩
  · exact h earlier lookup hsince hmade

/-- The host has answered all look-ups so far, or the last one with the error of the run. -/
def Contract.answered (answer : Array Lookup → Lookup → Except EvalError Value) (since : Nat) :
    Contract where
  world w := w.answer = answer ∧ Answered answer since w.log
  slot _ := True
  error e w := Answered answer since w.log ∨ ∃ log lookup, w.log = log.push lookup ∧
    answer log lookup = .error e ∧ Answered answer since log

theorem Contract.closed_answered (answer : Array Lookup → Lookup → Except EvalError Value)
    (since : Nat) : (Contract.answered answer since).Closed .all where
  host handle key w _ hw := by
    obtain ⟨hanswer, hlog⟩ := hw
    cases h : w.answer w.log ⟨handle, .query, key⟩ with
    | error e => exact .inr ⟨w.log, _, rfl, hanswer ▸ h, hlog⟩
    | ok v => exact ⟨trivial, hanswer, hlog.push (hanswer ▸ h)⟩
  draw _ _ _ hw := hw
  name _ _ _ _ hw := hw
  openCache _ hw := ⟨trivial, hw⟩
  remember _ _ _ _ _ hw _ := hw
  remembered _ _ _ _ _ _ := trivial
  fail _ _ hw _ := .inl hw.2

/-- A look-up that failed is the last one, and its error is the error of the run. -/
theorem Formula.failed_lookup_is_last (f : Formula) {env : Object} {w w' : World}
    {x : Except EvalError Value} (hrun : (f.run env).run.run w = (x, w')) {log : Array Lookup}
    {lookup : Lookup} {e : EvalError} (hsince : w.log.size ≤ log.size)
    (hmade : (log.push lookup).toList <+: w'.log.toList) (hfail : w.answer log lookup = .error e) :
    x = .error e ∧ w'.log = log.push lookup := by
  have hA := Means.closed_all
  have hc := Contract.closed_answered w.answer w.log.size
  have hstart : Answered w.answer w.log.size w.log := by
    intro earlier _ hsize hprefix
    have := hprefix.length_le
    rw [Array.length_toList, Array.length_toList, Array.size_push] at this
    omega
  have hunanswered : ¬ Answered w.answer w.log.size w'.log := by
    intro h
    obtain ⟨v, hv⟩ := h log lookup hsince hmade
    rw [hfail] at hv
    cases hv
  have hkeeps := f.expr.stepwise.keeps hA hc _ (hc.answers_object hA (o := env) trivial) w
    ⟨rfl, hstart⟩
  change (Contract.answered w.answer w.log.size).Promises _ ((f.run env).run.run w) at hkeeps
  rw [hrun] at hkeeps
  cases x with
  | ok v => exact absurd hkeeps.2.2 hunanswered
  | error e' =>
    rcases hkeeps with h | ⟨log', lookup', hlog, herror, hbefore⟩
    · exact absurd h hunanswered
    · rw [hlog] at hmade
      rcases push_prefix_push hmade with ⟨rfl, rfl⟩ | hearlier
      · exact ⟨hfail.symm.trans herror ▸ rfl, hlog⟩
      · obtain ⟨v, hv⟩ := hbefore log lookup hsince hearlier
        rw [hfail] at hv
        cases hv

/-! ### Before it the runs are the same -/

/-- Two hosts that answer the same to the look-ups of a log. Where the next one is `lookup`,
the runs may part; a first run that leaves the log is not followed either. -/
def Bond.following (answer answer' : Array Lookup → Lookup → Except EvalError Value)
    (log : Array Lookup) (lookup : Lookup) : Bond where
  alike w w' := w.answer = answer ∧ w.log.toList <+: log.toList ∧
    w' = { w with answer := answer', caches := w'.caches }
  own _ := True
  apart w w' := (log.push lookup).toList <+: w'.log.toList ∨
    ¬ w.log.toList <+: (log.push lookup).toList

theorem Bond.closed_following {answer answer' : Array Lookup → Lookup → Except EvalError Value}
    {log : Array Lookup} {lookup : Lookup} (h : ∀ earlier l,
      (earlier.push l).toList <+: log.toList → answer' earlier l = answer earlier l) :
    (Bond.following answer answer' log lookup).Closed .all where
  host handle key w w' _ hw := by
    obtain ⟨hanswer, hlog, hw'⟩ := hw
    rw [hw']
    by_cases hearlier : (w.log.push ⟨handle, .query, key⟩).toList <+: log.toList
    · refine .inr ⟨?_, hanswer, hearlier, rfl⟩
      rw [hanswer]
      exact (h _ _ hearlier).symm
    · refine .inl ?_
      by_cases hnow : (w.log.push ⟨handle, .query, key⟩).toList <+: (log.push lookup).toList
      · obtain ⟨heq, rfl⟩ := (push_prefix_push hnow).resolve_right hearlier
        exact .inl (heq ▸ List.prefix_refl _)
      · exact .inr hnow
  draw w w' _ hw := by
    obtain ⟨hanswer, hlog, hw'⟩ := hw
    rw [hw']
    exact ⟨rfl, rfl, fun n => ⟨hanswer, hlog, rfl⟩⟩
  name w w' _ _ hw := by
    obtain ⟨hanswer, hlog, hw'⟩ := hw
    rw [hw']
    exact ⟨rfl, fun n => ⟨hanswer, hlog, rfl⟩⟩
  openCache w w' hw := by
    obtain ⟨hanswer, hlog, hw'⟩ := hw
    rw [hw']
    exact ⟨trivial, hanswer, hlog, rfl⟩
  remember w w' k k' key v _ hw := by
    obtain ⟨hanswer, hlog, hw'⟩ := hw
    rw [hw']
    exact ⟨hanswer, hlog, rfl⟩
  value_of_apart _ _ _ _ := trivial
  grow w w' v v' hw hlog hlog' := by
    rcases hw with hw | hw
    · exact .inl (hw.trans hlog')
    · exact .inr fun hv => hw (hlog.trans hv)

theorem Formula.log_grows (f : Formula) (env : Object) (w : World) :
    w.log.toList <+: ((f.run env).run.run w).2.log.toList := by
  have hA := Means.closed_all
  have hc := Contract.closed_logged (A := .all) (fun _ => trivial) w.log
  have hkeeps : (Contract.logged w.log).Keeps (f.run env) fun _ => True :=
    f.expr.stepwise.keeps hA hc _ (hc.answers_object hA trivial)
  exact hkeeps.world_after (fun _ _ => id) (List.prefix_refl _)

/-- Where one host fails, others have been asked the same up to there. -/
theorem Formula.log_prefix (f : Formula) {env : Object} {w w' : World} {x : Except EvalError Value}
    (hrun : (f.run env).run.run w = (x, w')) {log : Array Lookup} {lookup : Lookup}
    (hsince : w.log.size ≤ log.size) (hlog : w'.log = log.push lookup)
    {answer' : Array Lookup → Lookup → Except EvalError Value} (hanswer : ∀ earlier l,
      (earlier.push l).toList <+: log.toList → answer' earlier l = w.answer earlier l) :
    (log.push lookup).toList <+:
      ((f.run env).run.run { w with answer := answer' }).2.log.toList := by
  have hA := Means.closed_all
  have hb : (Bond.following w.answer answer' log lookup).Closed .all :=
    Bond.closed_following hanswer
  have hstart : w.log.toList <+: log.toList := by
    have hgrows := f.log_grows env w
    rw [hrun, hlog, Array.toList_push, List.prefix_concat_iff] at hgrows
    refine hgrows.resolve_left fun h => ?_
    have := congrArg List.length h
    rw [List.length_append, Array.length_toList, Array.length_toList, List.length_singleton] at this
    omega
  have hagree := f.expr.stepwise.together hA hb _ _ _ (hb.binds_object hA _ (o := env) trivial) w
    { w with answer := answer' } (.of_no_links ⟨rfl, hstart, rfl⟩)
  change (Bond.following w.answer answer' log lookup).Agree _ _ _ ((f.run env).run.run w)
    ((f.run env).run.run { w with answer := answer' }) at hagree
  rw [hrun] at hagree
  have hleft : ¬ w'.log.toList <+: log.toList := by
    intro h
    have := h.length_le
    rw [hlog, Array.length_toList, Array.length_toList, Array.size_push] at this
    omega
  revert hagree
  generalize (f.run env).run.run { w with answer := answer' } = y
  rintro (⟨-, -, hw⟩ | hw | ⟨-, -, hw | hw⟩)
  · exact absurd hw.alike.2.1 hleft
  · exact absurd hw.2.1 hleft
  · exact hw
  · exact absurd (hlog ▸ List.prefix_refl _) hw

/-- **Evaluation is fail-fast.** A look-up that the host answers with an error is the last
one, and its error is the result. A host that has answered the same before, but answers this
look-up, is asked the same up to it. -/
theorem Formula.failure_ends_run (f : Formula) {env : Object} {w w' : World}
    {x : Except EvalError Value} (hrun : (f.run env).run.run w = (x, w')) {log : Array Lookup}
    {lookup : Lookup} {e : EvalError} (hsince : w.log.size ≤ log.size)
    (hmade : (log.push lookup).toList <+: w'.log.toList) (hfail : w.answer log lookup = .error e) :
    x = .error e ∧ w'.log = log.push lookup ∧
      ∀ answer' : Array Lookup → Lookup → Except EvalError Value,
        (∀ earlier l, (earlier.push l).toList <+: log.toList →
          answer' earlier l = w.answer earlier l) →
        w'.log.toList =
          (((f.run env).run.run { w with answer := answer' }).2.log.toList).take w'.log.size := by
  obtain ⟨herror, hlog⟩ := f.failed_lookup_is_last hrun hsince hmade hfail
  refine ⟨herror, hlog, fun answer' hanswer => ?_⟩
  have htake := List.prefix_iff_eq_take.1 (f.log_prefix hrun hsince hlog hanswer)
  rwa [← hlog, Array.length_toList] at htake

/-- A clause that is run for the first element of a list, and fails at its second look-up. -/
theorem failure_ends_map :
    let start (z : Except EvalError Value) : World := World.fresh (.ofWords fun _ => 0) fun _ l =>
      if l.key = "z" then z else .ok (.integer 1)
    ∃ f w', Formula.compile "map([3,1], value + x) where x = y + z" = .ok f ∧
      (f.run (.host 0)).run.run (start (.error .divisionByZero)) = (.error .divisionByZero, w') ∧
      w'.log = #[⟨0, .query, "y"⟩, ⟨0, .query, "z"⟩] ∧
      ∀ v, w'.log.toList =
        ((f.run (.host 0)).run.run (start (.ok v))).2.log.toList.take w'.log.size := by
  intro start
  have hcompile : Formula.compile "map([3,1], value + x) where x = y + z" =
      .ok ⟨"map([3,1], value + x) where x = y + z",
        .clauses (.call .map [.list [.integer 3, .integer 1],
          .binary .add (.name "value") (.name "x")])
          [("x", .binary .add (.name "y") (.name "z"))]⟩ := by
    cbv
  have hrun : ((⟨"map([3,1], value + x) where x = y + z",
        .clauses (.call .map [.list [.integer 3, .integer 1],
          .binary .add (.name "value") (.name "x")])
          [("x", .binary .add (.name "y") (.name "z"))]⟩ : Formula).run (.host 0)).run.run
      (start (.error .divisionByZero)) =
        (.error .divisionByZero, { start (.error .divisionByZero) with
          caches := #[[]], log := #[⟨0, .query, "y"⟩].push ⟨0, .query, "z"⟩ }) := rfl
  obtain ⟨-, hlog, htake⟩ :=
    Formula.failure_ends_run _ hrun (Nat.zero_le _) (List.prefix_refl _) rfl
  refine ⟨_, _, hcompile, hrun, hlog, fun v => htake _ fun earlier l hearlier => ?_⟩
  obtain ⟨-, rfl⟩ | hnone : earlier = #[] ∧ l = ⟨0, .query, "y"⟩ ∨
      (earlier.push l).toList <+: (#[] : Array Lookup).toList := push_prefix_push hearlier
  · rfl
  · simp at hnone

end Formulary
