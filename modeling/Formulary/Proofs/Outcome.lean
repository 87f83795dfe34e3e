import Formulary.Evaluation.Dice
import Formulary.Scope

/-! What runs come to.

A run from a world comes to an outcome, a result or an error, and the world it leaves. The
lemmas here give the outcomes of a run after another, of a roll of dice, and of look-ups in
a layer of clauses. -/
namespace Formulary

/-- How a run goes on after an outcome. -/
def Run.next {α β : Type} (f : α → Run β) :
    Except EvalError α × World → Except EvalError β × World
  | (.ok a, w) => (f a).run.run w
  | (.error e, w) => (.error e, w)

theorem Run.run_bind {α β : Type} (r : Run α) (f : α → Run β) (w : World) :
    (r >>= f).run.run w = Run.next f (r.run.run w) := by
  rw [ExceptT.run_bind, StateT.run_bind]
  rcases r.run.run w with ⟨_ | a, w'⟩ <;> rfl

/-- A run after another succeeds if both do. -/
theorem Run.bind_eq_ok_iff {α β : Type} {r : Run α} {f : α → Run β} {w w'' : World} {b : β} :
    (r >>= f).run.run w = (.ok b, w'') ↔
      ∃ a w', r.run.run w = (.ok a, w') ∧ (f a).run.run w' = (.ok b, w'') := by
  rw [Run.run_bind]
  constructor
  · rcases r.run.run w with ⟨_ | a, w'⟩
    · exact fun h => nomatch h
    · exact fun h => ⟨a, w', rfl, h⟩
  · rintro ⟨a, w', hr, hf⟩
    rw [hr]
    exact hf

/-- A run with a function applied to its result. -/
theorem Run.map_eq_ok_iff {α β : Type} {r : Run α} {f : α → β} {w w' : World} {b : β} :
    (f <$> r).run.run w = (.ok b, w') ↔ ∃ a, r.run.run w = (.ok a, w') ∧ b = f a := by
  rw [← bind_pure_comp, Run.bind_eq_ok_iff]
  constructor
  · intro ⟨a, w₁, hr, hf⟩
    obtain ⟨hb, rfl⟩ := Prod.mk.inj hf
    exact ⟨a, hr, (Except.ok.inj hb).symm⟩
  · rintro ⟨a, hr, rfl⟩
    exact ⟨a, w', hr, rfl⟩

/-- A result that was computed outside leaves the world as it is. -/
theorem Run.ofExcept_eq_ok_iff {α : Type} {x : Except EvalError α} {w w' : World} {a : α} :
    (Run.ofExcept x).run.run w = (.ok a, w') ↔ x = .ok a ∧ w' = w := by
  constructor
  · intro h
    obtain ⟨hx, hw⟩ := Prod.mk.inj h
    exact ⟨hx, hw.symm⟩
  · intro ⟨hx, hw⟩
    rw [hx, hw]
    rfl

/-! ### Runs one after the other -/

section
variable {α β : Type} {f : α → Run β} {xs before behind : List α} {bs : List β} {x : α}
  {e : EvalError} {w w' w₁ w₂ : World}

theorem Run.mapM_cons_eq_ok_iff :
    ((x :: xs).mapM f).run.run w = (.ok bs, w') ↔
      ∃ b w₁ rest, (f x).run.run w = (.ok b, w₁) ∧ (xs.mapM f).run.run w₁ = (.ok rest, w') ∧
        bs = b :: rest := by
  rw [List.mapM_cons, Run.bind_eq_ok_iff]
  constructor
  · intro ⟨b, w₁, hb, h⟩
    obtain ⟨rest, w₂, hrest, h⟩ := Run.bind_eq_ok_iff.1 h
    obtain ⟨hok, rfl⟩ := Prod.mk.inj h
    exact ⟨b, w₁, rest, hb, hrest, (Except.ok.inj hok).symm⟩
  · intro ⟨b, w₁, rest, hb, hrest, hbs⟩
    exact ⟨b, w₁, hb, Run.bind_eq_ok_iff.2 ⟨rest, w', hrest, hbs ▸ rfl⟩⟩

/-- There is one result for each. -/
theorem Run.length_of_mapM (h : (xs.mapM f).run.run w = (.ok bs, w')) :
    bs.length = xs.length := by
  induction xs generalizing w bs with
  | nil =>
    obtain rfl := Except.ok.inj (Prod.mk.inj h).1
    rfl
  | cons x xs ih =>
    obtain ⟨b, w₁, rest, -, hrest, rfl⟩ := Run.mapM_cons_eq_ok_iff.1 h
    rw [List.length_cons, ih hrest, List.length_cons]

/-- The first that fails ends them. -/
theorem Run.mapM_eq_error (hbefore : (before.mapM f).run.run w = (.ok bs, w₁))
    (hx : (f x).run.run w₁ = (.error e, w₂)) :
    ((before ++ x :: behind).mapM f).run.run w = (.error e, w₂) := by
  rw [List.mapM_append, List.mapM_cons]
  simp only [Run.run_bind, hbefore, hx, Run.next]

end

/-! ### Dice -/

/-- What a roll comes to, and the state it leaves the generator in. -/
theorem run_roll {count faces : Int64} (h : ¬ (count.toInt ≤ 0 || faces.toInt ≤ 0) = true)
    (w : World) :
    (roll count faces).run.run w =
      let rolled := rollFrom w.generator faces.toInt.toNat count.toInt.toNat w.state 0
      (match rolled.1 with
        | some n => .ok (Int64.ofNat n)
        | none => .error (.overflow (.operator .dice)), { w with state := rolled.2 }) := by
  have hroll : roll count faces = (do
      let w ← get
      let rolled := rollFrom w.generator faces.toInt.toNat count.toInt.toNat w.state 0
      set { w with state := rolled.2 }
      match rolled.1 with
      | some n => pure (Int64.ofNat n)
      | none => throw (.overflow (.operator .dice))) := by
    unfold roll
    exact if_neg h
  rw [hroll, Run.run_bind]
  show Run.next _ (.ok w, w) = _
  simp only [Run.next, Run.run_bind]
  generalize rollFrom w.generator faces.toInt.toNat count.toInt.toNat w.state 0 = rolled
  obtain ⟨_ | n, state⟩ := rolled <;> rfl

/-! ### Layers of clauses -/

theorem lookup_map {α β : Type} (f : α → β) (entries : List (String × α)) (key : String) :
    (entries.map fun e => (e.1, f e.2)).lookup key = (entries.lookup key).map f := by
  induction entries with
  | nil => rfl
  | cons e entries ih =>
    rw [List.map_cons, Keyed.lookup_cons, ih, Keyed.lookup_cons]
    split <;> rfl

namespace Scope

variable {slot : Nat} {bindings : List (String × Run Value)} {outer : Scope} {n : String}
  {w w' : World} {v : Value} {clause : Run Value}

/-- A remembered value is there at once. -/
theorem query_of_remembered (h : (w.caches.getD slot []).lookup n = some v) :
    ((clauses slot bindings outer).query n).run.run w = (.ok v, w) := by
  have hremembered : (liftM (remembered slot n) : Run (Option Value)).run.run w =
      (.ok (some v), w) := by
    rw [← h]
    rfl
  rw [query, Run.run_bind, hremembered]
  rfl

/-- Nothing is remembered for the name. -/
theorem query_of_forgotten (h : (w.caches.getD slot []).lookup n = none) :
    ((clauses slot bindings outer).query n).run.run w =
      match bindings.lookup n with
      | some clause => Run.next (fun v => do remember slot n v; pure v) (clause.run.run w)
      | none => (outer.query n).run.run w := by
  have hremembered : (liftM (remembered slot n) : Run (Option Value)).run.run w =
      (.ok none, w) := by
    rw [← h]
    rfl
  rw [query, Run.run_bind, hremembered, Run.next]
  cases bindings.lookup n with
  | none => rfl
  | some clause => exact Run.run_bind _ _ _

theorem query_of_unbound (h : (w.caches.getD slot []).lookup n = none)
    (hb : bindings.lookup n = none) :
    ((clauses slot bindings outer).query n).run.run w = (outer.query n).run.run w := by
  rw [query_of_forgotten h, hb]

/-- A clause that succeeds is remembered. -/
theorem query_of_clause_ok (h : (w.caches.getD slot []).lookup n = none)
    (hb : bindings.lookup n = some clause) (hclause : clause.run.run w = (.ok v, w')) :
    ((clauses slot bindings outer).query n).run.run w =
      (.ok v, { w' with caches := w'.caches.modify slot ((n, v) :: ·) }) := by
  rw [query_of_forgotten h, hb]
  simp only [hclause]
  rfl

theorem query_of_clause_error {e : EvalError} (h : (w.caches.getD slot []).lookup n = none)
    (hb : bindings.lookup n = some clause) (hclause : clause.run.run w = (.error e, w')) :
    ((clauses slot bindings outer).query n).run.run w = (.error e, w') := by
  rw [query_of_forgotten h, hb]
  simp only [hclause]
  rfl

end Scope

end Formulary
