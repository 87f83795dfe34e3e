import Formulary.Proofs.Memory

/-! The two ways to ask.

`get` and `query` are two recursions over the layers of a scope and the tables under it. They
come to the same: `get` is `query` with the missing value for an error
(`Scope.get_eq_or_host`). A layer of clauses has it by definition, the others pass it on from
what is below them. At the bottom only an object of the host could tell the two apart. It sees
which of them it is asked by, and the log keeps that. -/
namespace Formulary

/-- The value of an outcome, or the missing value where it is an error. -/
def valueOrMissing : Except EvalError Value → Value
  | .ok v => v
  | .error _ => .missing

theorem Run.run_orMissing (r : Run Value) (w : World) :
    r.orMissing.run w = (valueOrMissing (r.run.run w).1, (r.run.run w).2) := by
  rw [orMissing, StateT.run_bind]
  rcases r.run.run w with ⟨_ | v, w'⟩ <;> rfl

theorem Run.orMissing_liftM (x : Always Value) : (liftM x : Run Value).orMissing = x := by
  funext w
  exact Run.run_orMissing _ w

/-! ### The bottom -/

/-- The object that a chain of tables ends in. -/
def Object.bottom : Object → Object
  | layer _ fallback => fallback.bottom
  | o => o

/-- The object under all layers of a scope. -/
def Scope.bottom : Scope → Object
  | object o => o.bottom
  | elements _ outer | definitions _ outer | clauses _ _ outer => outer.bottom

/-- An object of the host is asked by `get` and by `query`; the others do the same for
both. -/
theorem Object.get_eq_or_host (o : Object) (key : String) :
    o.get key = (o.query key).orMissing ∨
      ∃ handle, o.bottom = .host handle ∧ o.get key = (Object.host handle).get key ∧
        o.query key = (Object.host handle).query key := by
  cases o with
  | nothing | tile | record => exact .inl (Run.orMissing_liftM _).symm
  | host handle => exact .inr ⟨handle, rfl, rfl, rfl⟩
  | layer entries fallback =>
    unfold Object.get Object.query Object.bottom
    cases entries.lookup key with
    | some v => exact .inl (Run.orMissing_liftM (pure v)).symm
    | none => exact fallback.get_eq_or_host key

/-- `get` is `query` without errors, except that it asks the host by `get`. It then does
nothing else than that. -/
theorem Scope.get_eq_or_host (s : Scope) (key : String) :
    s.get key = (s.query key).orMissing ∨
      ∃ handle, s.bottom = .host handle ∧ s.get key = (Object.host handle).get key ∧
        s.query key = (Object.host handle).query key := by
  induction s with
  | object o => exact o.get_eq_or_host key
  | elements bindings outer ih =>
    unfold Scope.get Scope.query Scope.bottom
    cases bindings.lookup key with
    | some v => exact .inl (Run.orMissing_liftM (pure v)).symm
    | none => exact ih
  | definitions | clauses => exact .inl rfl

theorem Object.run_get_host (handle : Nat) (key : String) (w : World) :
    ((Object.host handle).get key).run w =
      (valueOrMissing (w.answer w.log ⟨handle, .get, key⟩),
        { w with log := w.log.push ⟨handle, .get, key⟩ }) := by
  rw [Object.get, StateT.run_bind]
  show (match w.answer w.log ⟨handle, .get, key⟩ with
    | .ok v => pure v
    | .error _ => pure Value.missing : Always Value).run _ = _
  cases w.answer w.log ⟨handle, .get, key⟩ <;> rfl

/-- **The two ways to ask agree.** Asked from the same world, `get` has the value of `query`
if there is one and the missing value otherwise, and leaves the world as `query` does: the same
values remembered and the same dice rolled. If there is an object of the host at the bottom, it
has to answer `get` in this way itself. The logs may then differ, but only in how the host was
asked at last. -/
theorem Scope.get_agrees_with_query (s : Scope) (key : String) (w : World)
    (hhost : ∀ handle, s.bottom = .host handle →
      valueOrMissing (w.answer w.log ⟨handle, .get, key⟩) =
        valueOrMissing (w.answer w.log ⟨handle, .query, key⟩)) :
    let got := (s.get key).run w
    let asked := (s.query key).run.run w
    (∀ v, asked.1 = .ok v → got.1 = v) ∧
      (∀ e, asked.1 = .error e → got.1 = .integer 0) ∧
      got.2 = { asked.2 with log := got.2.log } ∧
      (got.2.log = asked.2.log ∨ ∃ handle, s.bottom = .host handle ∧
        got.2.log = w.log.push ⟨handle, .get, key⟩ ∧
        asked.2.log = w.log.push ⟨handle, .query, key⟩) := by
  intro got asked
  have hagree : got.1 = valueOrMissing asked.1 ∧ got.2 = { asked.2 with log := got.2.log } ∧
      (got.2.log = asked.2.log ∨ ∃ handle, s.bottom = .host handle ∧
        got.2.log = w.log.push ⟨handle, .get, key⟩ ∧
        asked.2.log = w.log.push ⟨handle, .query, key⟩) := by
    rcases s.get_eq_or_host key with heq | ⟨handle, hbottom, hget, hquery⟩
    · have hgot : got = (valueOrMissing asked.1, asked.2) := by
        simp only [got, asked, heq, Run.run_orMissing]
      rw [hgot]
      exact ⟨rfl, rfl, .inl rfl⟩
    · have hgot : got = (valueOrMissing (w.answer w.log ⟨handle, .get, key⟩),
          { w with log := w.log.push ⟨handle, .get, key⟩ }) := by
        simp only [got, hget, Object.run_get_host]
      have hasked : asked = (w.answer w.log ⟨handle, .query, key⟩,
          { w with log := w.log.push ⟨handle, .query, key⟩ }) := by
        simp only [asked, hquery]
        rfl
      rw [hgot, hasked]
      exact ⟨hhost handle hbottom, rfl, .inr ⟨handle, hbottom, rfl, rfl⟩⟩
  obtain ⟨hvalue, hworld⟩ := hagree
  refine ⟨fun v hv => ?_, fun e he => ?_, hworld⟩
  · rw [hvalue, hv, valueOrMissing]
  · rw [hvalue, he, valueOrMissing, Value.missing]

/-- A host that fails a `query` for a name and has the missing value for `get`, under a table and
a layer of elements. It is asked in the two ways. -/
theorem Scope.get_agrees_with_failing_query :
    let s : Scope := .elements [("value", .integer 5)]
      (.object (.layer [("gold", .integer 2)] (.host 0)))
    let w := World.fresh (.ofWords fun _ => 0) fun _ lookup =>
      if lookup.access = .query then .error .divisionByZero else .ok .missing
    ((s.query "mana").run.run w).1 = .error .divisionByZero ∧
      ((s.get "mana").run w).1 = .integer 0 ∧
      ((s.get "mana").run w).2.log = #[⟨0, .get, "mana"⟩] ∧
      ((s.query "mana").run.run w).2.log = #[⟨0, .query, "mana"⟩] := by
  intro s w
  have hfailed : ((s.query "mana").run.run w).1 = .error .divisionByZero := rfl
  have hhost : ∀ handle, s.bottom = .host handle →
      valueOrMissing (w.answer w.log ⟨handle, .get, "mana"⟩) =
        valueOrMissing (w.answer w.log ⟨handle, .query, "mana"⟩) := fun _ _ => rfl
  obtain ⟨-, hmissing, -, -⟩ := s.get_agrees_with_query "mana" w hhost
  exact ⟨hfailed, hmissing _ hfailed, rfl, rfl⟩

end Formulary
