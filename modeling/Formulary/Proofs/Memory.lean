import Formulary.Proofs.Contract

/-! What a layer of clauses remembers.

A layer is asked in a row of calls. Whatever runs in the scope around it leaves its cache
alone (`Contract.leaving`), so after any calls it remembers for each name that it binds the
first value of its clause, and nothing else (`remembered_after`). From this
`clauses_run_until_they_succeed`: a clause runs at each call for its name until it succeeds,
and never again. -/
namespace Formulary

/-! ### Calls on a scope -/

/-- What an access makes of the outcome of a look-up. -/
def Access.report : Access → Except EvalError Value → Except EvalError Value
  | .query, x => x
  | .get, .ok v => .ok v
  | .get, .error _ => .ok .missing

/-- A look-up by `get` or `query`. -/
abbrev Call := Access × String

namespace Scope

def answer (scope : Scope) : Call → Always (Except EvalError Value)
  | (.query, n) => (scope.query n).run
  | (.get, n) => .ok <$> scope.get n

/-- The answers to calls one after the other. -/
def answers (scope : Scope) (calls : List Call) : Always (List (Except EvalError Value)) :=
  calls.mapM scope.answer

/-- The world after some calls. -/
def after (scope : Scope) (calls : List Call) (w : World) : World :=
  ((scope.answers calls).run w).2

/-- The value of the first call for the name at which the expression has one in the scope
around the layer. -/
def firstValue (layer outer : Scope) (e : Expr) (n : String) : List Call → World → Option Value
  | [], _ => none
  | call :: calls, w =>
    (if call.2 = n then ((e.eval outer).run.run w).1.toOption else none).or
      (firstValue layer outer e n calls ((layer.answer call).run w).2)

theorem answers_cons (scope : Scope) (call : Call) (calls : List Call) (w : World) :
    (scope.answers (call :: calls)).run w =
      let y := (scope.answer call).run w
      (y.1 :: ((scope.answers calls).run y.2).1, ((scope.answers calls).run y.2).2) := by
  rw [answers, List.mapM_cons]
  rfl

theorem after_cons (scope : Scope) (call : Call) (calls : List Call) (w : World) :
    scope.after (call :: calls) w = scope.after calls ((scope.answer call).run w).2 := by
  rw [after, answers_cons]
  rfl

/-- A layer of clauses is asked by `query`, whatever the access. -/
theorem answer_clauses (slot : Nat) (bindings : List (String × Run Value)) (outer : Scope)
    (access : Access) (n : String) (w : World) :
    ((clauses slot bindings outer).answer (access, n)).run w =
      let y := ((clauses slot bindings outer).query n).run.run w
      (access.report y.1, y.2) := by
  cases access with
  | query => rfl
  | get =>
    rw [answer, Scope.get, Run.orMissing, StateT.run_map, StateT.run_bind]
    · rcases ((clauses slot bindings outer).query n).run.run w with ⟨_ | v, w'⟩ <;> rfl
    all_goals simp

/-- The scopes that evaluation builds, with caches among the first `size`. -/
inductive Built (size : Nat) : Scope → Prop where
  | object (o : Object) : Built size (.object o)
  | elements {bindings : List (String × Value)} {outer : Scope} (h : Built size outer) :
      Built size (.elements bindings outer)
  | clauses {slot : Nat} {bindings : List (String × Expr)} {outer : Scope} (hslot : slot < size)
      (h : Built size outer) : Built size (.clauses slot (Expr.clauseRuns bindings outer) outer)

end Scope

/-! ### What runs outside leaves the cache alone -/

/-- The cache holds these entries. -/
def Contract.leaving (slot : Nat) (entries : List (String × Value)) : Contract where
  world w := w.caches[slot]? = some entries
  slot k := k ≠ slot
  error _ w := w.caches[slot]? = some entries

theorem Contract.closed_leaving (slot : Nat) (entries : List (String × Value)) :
    (Contract.leaving slot entries).Closed .all := by
  refine .of_caches (fun _ _ => id) (fun w w' hsame hw => ?_) (fun w hw => ?_) ?_
  · show w'.caches[slot]? = some entries
    rwa [hsame]
  · obtain ⟨hlt, -⟩ := Array.getElem?_eq_some_iff.1 hw
    refine ⟨Nat.ne_of_gt hlt, ?_⟩
    show (w.caches.push [])[slot]? = some entries
    rwa [Array.getElem?_push_lt hlt, ← Array.getElem?_eq_getElem hlt]
  · intro w k key v hk hw
    show (w.caches.modify k _)[slot]? = some entries
    rwa [Array.getElem?_modify, if_neg hk]

variable {slot : Nat} {entries : List (String × Value)}

/-- The scopes that evaluation builds answer within a closed contract that may read their
caches. -/
theorem Scope.Built.answers_of_closed {size : Nat} {scope : Scope} {c : Contract}
    (h : scope.Built size) (hc : c.Closed .all) (hslot : ∀ k < size, c.slot k) :
    c.Answers .all scope := by
  induction h with
  | object o => exact hc.answers_object Means.closed_all trivial
  | elements _ ih => exact Contract.answers_elements (fun _ _ => trivial) ih
  | @clauses k bindings outer hk _ ih =>
    refine hc.answers_clauses (hslot k hk) ?_ ih
    rw [Expr.clauseRuns_eq_map]
    exact List.forall_mem_map.2 fun b _ => b.2.stepwise.keeps Means.closed_all hc outer ih

theorem Scope.Built.answers {scope : Scope} (h : scope.Built slot) :
    (Contract.leaving slot entries).Answers .all scope :=
  h.answers_of_closed (Contract.closed_leaving slot entries) fun _ hk => Nat.ne_of_lt hk

/-- After a run that leaves the cache alone it holds what it held. -/
theorem Contract.leaves {r : Run Value} {post : Value → Prop} {w : World}
    (h : (Contract.leaving slot entries).Keeps r post) (hw : w.caches[slot]? = some entries) :
    (r.run.run w).2.caches[slot]? = some entries :=
  h.world_after (fun _ _ => id) hw

section
variable {bindings : List (String × Expr)} {outer : Scope} {w : World}

/-- The layer of some bindings, with its memory in `slot`. -/
def Scope.layer (slot : Nat) (bindings : List (String × Expr)) (outer : Scope) : Scope :=
  .clauses slot (Expr.clauseRuns bindings outer) outer

theorem lookup_clauseRuns (n : String) :
    (Expr.clauseRuns bindings outer).lookup n =
      (bindings.lookup n).map fun e => e.eval outer := by
  rw [Expr.clauseRuns_eq_map]
  exact lookup_map (fun e : Expr => e.eval outer) bindings n

theorem getD_of_getElem? (hw : w.caches[slot]? = some entries) :
    w.caches.getD slot [] = entries := by
  rw [Array.getD_eq_getD_getElem?, hw]
  rfl

/-- A layer keeps a contract that allows to remember the values of its clauses under their
names, though its cache may not be one that is read otherwise. -/
theorem Contract.answers_layer {c : Contract} (hc : c.Closed .all) (houter : c.Answers .all outer)
    (hremember : ∀ n e v w w', bindings.lookup n = some e →
      (e.eval outer).run.run w = (.ok v, w') → c.world w → c.world w' →
      c.world { w' with caches := w'.caches.modify slot ((n, v) :: ·) }) :
    c.Answers .all (Scope.layer slot bindings outer) := by
  intro n w hw
  cases hn : (w.caches.getD slot []).lookup n with
  | some v =>
    rw [Scope.layer, Scope.query_of_remembered hn]
    exact ⟨trivial, hw⟩
  | none =>
    rw [Scope.layer, Scope.query_of_forgotten hn, lookup_clauseRuns]
    cases hb : bindings.lookup n with
    | none => exact houter n w hw
    | some e =>
      have hkeeps := e.stepwise.keeps Means.closed_all hc outer houter w hw
      simp only [Option.map_some]
      cases hrun : (e.eval outer).run.run w with
      | mk x w' =>
        rw [hrun] at hkeeps
        cases x with
        | error x => exact hkeeps
        | ok v => exact ⟨trivial, hremember n e v w w' hb hrun hw hkeeps.2⟩

/-! ### One call -/

section
variable {n : String} (access : Access)

theorem answer_of_remembered {v : Value} (hw : w.caches[slot]? = some entries)
    (hv : entries.lookup n = some v) :
    ((Scope.layer slot bindings outer).answer (access, n)).run w = (.ok v, w) := by
  rw [Scope.layer, Scope.answer_clauses,
    Scope.query_of_remembered ((getD_of_getElem? hw).symm ▸ hv)]
  cases access <;> rfl

theorem answer_of_unbound (hw : w.caches[slot]? = some entries) (hn : entries.lookup n = none)
    (hb : bindings.lookup n = none) :
    ((Scope.layer slot bindings outer).answer (access, n)).run w =
      let y := (outer.query n).run.run w
      (access.report y.1, y.2) := by
  rw [Scope.layer, Scope.answer_clauses,
    Scope.query_of_unbound ((getD_of_getElem? hw).symm ▸ hn) (by rw [lookup_clauseRuns, hb]; rfl)]

theorem answer_of_clause {e : Expr} (hw : w.caches[slot]? = some entries)
    (hn : entries.lookup n = none) (hb : bindings.lookup n = some e) :
    ((Scope.layer slot bindings outer).answer (access, n)).run w =
      match (e.eval outer).run.run w with
      | (.ok v, w') => (.ok v, { w' with caches := w'.caches.modify slot ((n, v) :: ·) })
      | (.error x, w') => (access.report (.error x), w') := by
  have hn' : (w.caches.getD slot []).lookup n = none := (getD_of_getElem? hw).symm ▸ hn
  have hb' : (Expr.clauseRuns bindings outer).lookup n = some (e.eval outer) := by
    rw [lookup_clauseRuns, hb]
    rfl
  rw [Scope.layer, Scope.answer_clauses]
  cases hclause : (e.eval outer).run.run w with
  | mk x w' =>
    cases x with
    | error x => rw [Scope.query_of_clause_error hn' hb' hclause]
    | ok v =>
      rw [Scope.query_of_clause_ok hn' hb' hclause]
      cases access <;> rfl

end

/-- A call adds the value of its clause to what is remembered, if it is the first one. -/
theorem remembered_answer (houter : outer.Built slot) (hw : w.caches[slot]? = some entries)
    (call : Call) :
    ∃ entries', (((Scope.layer slot bindings outer).answer call).run w).2.caches[slot]? =
        some entries' ∧
      ∀ n, entries'.lookup n = (entries.lookup n).or ((bindings.lookup n).bind fun e =>
        if call.2 = n then ((e.eval outer).run.run w).1.toOption else none) := by
  obtain ⟨access, m⟩ := call
  cases hm : entries.lookup m with
  | some v =>
    rw [answer_of_remembered access hw hm]
    refine ⟨entries, hw, fun n => ?_⟩
    by_cases h : m = n
    · rw [← h, hm]
      rfl
    · simp [h]
  | none =>
    cases hb : bindings.lookup m with
    | none =>
      rw [answer_of_unbound access hw hm hb]
      have hleft := Contract.leaves (houter.answers m) hw
      refine ⟨entries, hleft, fun n => ?_⟩
      by_cases h : m = n
      · rw [← h, hb]
        simp
      · simp [h]
    | some e =>
      rw [answer_of_clause access hw hm hb]
      have hkeeps := e.stepwise.keeps Means.closed_all (Contract.closed_leaving slot entries) outer
        houter.answers
      have hleft := Contract.leaves hkeeps hw
      cases hclause : (e.eval outer).run.run w with
      | mk x w' =>
        rw [hclause] at hleft
        cases x with
        | error x =>
          refine ⟨entries, hleft, fun n => ?_⟩
          by_cases h : m = n
          · subst h
            simp [hb, hclause, Except.toOption]
          · simp [h]
        | ok v =>
          have hleft : w'.caches[slot]? = some entries := hleft
          refine ⟨(m, v) :: entries, by simp [Array.getElem?_modify, hleft], fun n => ?_⟩
          rw [Keyed.lookup_cons]
          by_cases h : m = n
          · subst h
            simp [hm, hb, hclause, Except.toOption]
          · simp [h, Ne.symm h]

/-! ### Calls in a row -/

/-- After some calls the layer remembers the first values of its clauses, besides what it
remembered before. -/
theorem remembered_after (houter : outer.Built slot) (hw : w.caches[slot]? = some entries)
    (calls : List Call) :
    ∃ entries', ((Scope.layer slot bindings outer).after calls w).caches[slot]? = some entries' ∧
      ∀ n, entries'.lookup n = (entries.lookup n).or ((bindings.lookup n).bind fun e =>
        (Scope.layer slot bindings outer).firstValue outer e n calls w) := by
  induction calls generalizing w entries with
  | nil =>
    refine ⟨entries, hw, fun n => ?_⟩
    cases bindings.lookup n <;> simp [Scope.firstValue]
  | cons call calls ih =>
    obtain ⟨entries', hw', hfirst⟩ := remembered_answer houter hw call
    obtain ⟨entries'', hw'', hrest⟩ := ih hw'
    rw [Scope.after_cons]
    refine ⟨entries'', hw'', fun n => ?_⟩
    rw [hrest n, hfirst n, Option.or_assoc]
    cases bindings.lookup n <;> rfl

/-- Clauses of names that nobody asks for make no difference. -/
theorem answers_congr {bindings' : List (String × Expr)} {calls : List Call}
    (h : ∀ call ∈ calls, bindings'.lookup call.2 = bindings.lookup call.2) :
    (Scope.layer slot bindings' outer).answers calls =
      (Scope.layer slot bindings outer).answers calls := by
  induction calls with
  | nil => rfl
  | cons call calls ih =>
    obtain ⟨hcall, hcalls⟩ := List.forall_mem_cons.1 h
    have hquery : (Scope.layer slot bindings' outer).query call.2 =
        (Scope.layer slot bindings outer).query call.2 := by
      simp only [Scope.layer, Scope.query, lookup_clauseRuns, hcall]
    have hanswer : (Scope.layer slot bindings' outer).answer call =
        (Scope.layer slot bindings outer).answer call := by
      obtain ⟨_ | _, n⟩ := call
      · exact congrArg (fun r => Except.ok <$> Run.orMissing r) hquery
      · exact congrArg ExceptT.run hquery
    simp only [Scope.answers, List.mapM_cons, hanswer] at ih ⊢
    rw [ih hcalls]

/-- **A clause runs until it succeeds, and never again.** After any calls on a new layer:

A name that it binds has the first value that a call for it has found, at once and with
nothing else happening; while there is none, a call runs the clause in the scope around the
layer. Other names are asked for there each time. Only the first values are remembered, and
the clauses of names that nobody has asked for might be any. -/
theorem clauses_run_until_they_succeed {start : World} (houter : outer.Built start.caches.size)
    (calls : List Call) (access : Access) (n : String) :
    let opened := (Scope.openClauses (Expr.clauseRuns bindings outer) outer).run start
    let now := opened.1.after calls opened.2
    (∀ e, bindings.lookup n = some e →
      (∀ v, opened.1.firstValue outer e n calls opened.2 = some v →
        (opened.1.answer (access, n)).run now = (.ok v, now)) ∧
      (opened.1.firstValue outer e n calls opened.2 = none →
        (opened.1.answer (access, n)).run now =
          match (e.eval outer).run.run now with
          | (.ok v, w) =>
            (.ok v, { w with caches := w.caches.modify start.caches.size ((n, v) :: ·) })
          | (.error x, w) => (access.report (.error x), w))) ∧
    (bindings.lookup n = none →
      (opened.1.answer (access, n)).run now =
        let y := (outer.query n).run.run now
        (access.report y.1, y.2)) ∧
    (now.caches.getD start.caches.size []).lookup n = (bindings.lookup n).bind (fun e =>
      opened.1.firstValue outer e n calls opened.2) ∧
    ∀ bindings' : List (String × Expr),
      (∀ call ∈ calls, bindings'.lookup call.2 = bindings.lookup call.2) →
      let opened' := (Scope.openClauses (Expr.clauseRuns bindings' outer) outer).run start
      (opened'.1.answers calls).run opened'.2 = (opened.1.answers calls).run opened.2 := by
  intro opened now
  have hopened : opened.2.caches[start.caches.size]? = some [] := Array.getElem?_push_size
  obtain ⟨entries, hentries, hfirst⟩ : ∃ entries,
      now.caches[start.caches.size]? = some entries ∧ ∀ n, entries.lookup n =
        (bindings.lookup n).bind fun e => opened.1.firstValue outer e n calls opened.2 :=
    remembered_after houter hopened calls
  refine ⟨fun e hb => ⟨fun v hv => ?_, fun hnone => ?_⟩, fun hb => ?_, ?_, fun bindings' h => ?_⟩
  · exact answer_of_remembered access hentries (by rw [hfirst, hb]; exact hv)
  · exact answer_of_clause access hentries (by rw [hfirst, hb]; exact hnone) hb
  · exact answer_of_unbound access hentries (by rw [hfirst, hb]; rfl) hb
  · rw [getD_of_getElem? hentries, hfirst]
  · exact congrArg (fun r : Always _ => r.run opened.2) (answers_congr h)

end

/-- A clause that fails at first, for the host does, then succeeds, and stays. The dice of the
other clause are not rolled. -/
theorem clause_fails_then_succeeds :
    let opened := (Scope.openClauses (Expr.clauseRuns
      [("x", .binary .add (.name "h") (.integer 1)),
        ("y", .binary .dice (.integer 2) (.integer 6))]
      (.object (.host 0))) (.object (.host 0))).run (World.fresh (.ofWords fun _ => 0) fun log _ =>
        if log.size = 0 then .error .divisionByZero else .ok (.integer 1))
    let now := opened.1.after [(.get, "x"), (.query, "x")] opened.2
    now.log.size = 2 ∧ now.state = 0 ∧
      (opened.1.answer (.get, "x")).run now = (.ok (.integer 2), now) := by
  intro opened now
  have houter : Scope.Built (World.fresh (.ofWords fun _ => 0) fun log _ =>
      if log.size = 0 then .error .divisionByZero else .ok (.integer 1)).caches.size
        (.object (.host 0)) := .object _
  have hlookup : List.lookup "x" [("x", Expr.binary .add (.name "h") (.integer 1)),
      ("y", .binary .dice (.integer 2) (.integer 6))] =
        some (.binary .add (.name "h") (.integer 1)) := rfl
  obtain ⟨hclause, -⟩ :=
    clauses_run_until_they_succeed houter [(.get, "x"), (.query, "x")] .get "x"
  exact ⟨rfl, rfl, (hclause _ hlookup).1 _ rfl⟩

end Formulary
