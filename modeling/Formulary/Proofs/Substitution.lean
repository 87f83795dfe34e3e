import Formulary.Environment
import Formulary.Proofs.Memory
import Formulary.Proofs.Steady

/-! What a `where` means.

In a plain environment a steady clause is a constant, so it makes no difference when it runs
and how often. A layer of such clauses goes together with any scope that has their outcomes
in place of the clauses (`Bond.binds_layer`): one that fails or gives the value at each
look-up, or, if all clauses have values, a layer of these over the environment
(`eval_clauses_eq`). -/
namespace Formulary

/-- What the clauses come to, from some world. -/
def outcomes (bindings : List (String × Expr)) (o : Object) (w : World) :
    List (String × Except EvalError Value) :=
  bindings.map fun b => (b.1, ((b.2.eval (.object o)).run.run w).1)

/-- The worlds are the same but for their caches, and what the layer with its memory in
`slot` remembers in the first one are outcomes. -/
def Bond.remembering (slot : Nat) (found : List (String × Except EvalError Value)) : Bond where
  alike w w' := w' = { w with caches := w'.caches } ∧ ∃ entries, w.caches[slot]? = some entries ∧
    ∀ n v, entries.lookup n = some v → found.lookup n = some (.ok v)
  own k := k ≠ slot
  apart _ _ := False

theorem Bond.closed_remembering (slot : Nat) (found : List (String × Except EvalError Value)) :
    (Bond.remembering slot found).Closed .all where
  host handle key w w' _ hw := by
    obtain ⟨heq, hfound⟩ := hw
    rw [heq]
    exact .inr ⟨rfl, rfl, hfound⟩
  draw w w' _ hw := by
    obtain ⟨heq, hfound⟩ := hw
    rw [heq]
    exact ⟨rfl, rfl, fun n => ⟨rfl, hfound⟩⟩
  name w w' _ _ hw := by
    obtain ⟨heq, hfound⟩ := hw
    rw [heq]
    exact ⟨rfl, fun n => ⟨rfl, hfound⟩⟩
  openCache w w' hw := by
    obtain ⟨heq, entries, hentries, hfound⟩ := hw
    obtain ⟨hlt, -⟩ := Array.getElem?_eq_some_iff.1 hentries
    rw [heq]
    refine ⟨Nat.ne_of_gt hlt, rfl, entries, ?_, hfound⟩
    show (w.caches.push [])[slot]? = some entries
    rwa [Array.getElem?_push_lt hlt, ← Array.getElem?_eq_getElem hlt]
  remember w w' k k' key v hk hw := by
    obtain ⟨heq, entries, hentries, hfound⟩ := hw
    rw [heq]
    refine ⟨rfl, entries, ?_, hfound⟩
    show (w.caches.modify k _)[slot]? = some entries
    rwa [Array.getElem?_modify, if_neg hk]
  value_of_apart _ _ h := h.elim
  grow _ _ _ _ h := h.elim

variable {bindings : List (String × Expr)} {o : Object} {w₀ : World} {slot : Nat} {links : Links}

theorem lookup_outcomes (n : String) :
    (outcomes bindings o w₀).lookup n =
      (bindings.lookup n).map fun e => ((e.eval (.object o)).run.run w₀).1 :=
  lookup_map (fun e : Expr => ((e.eval (.object o)).run.run w₀).1) bindings n

/-- Entries that change only in `slot`, by an outcome, leave the worlds linked. -/
theorem Bond.linked_of_found {found : List (String × Except EvalError Value)} {w w' : World}
    (hw : (Bond.remembering slot found).Linked .all links w w')
    {caches : Array (List (String × Value))}
    (hold : ∀ k < w.caches.size, caches[k]? = w.caches[k]?) {n : String} {v : Value}
    (hv : found.lookup n = some (.ok v)) :
    (Bond.remembering slot found).Linked .all links
      { w with caches := caches.modify slot ((n, v) :: ·) } w' := by
  obtain ⟨heq, entries, hentries, hfound⟩ := hw.alike
  have hlt {k : Nat} {entries : List (String × Value)} (h : w.caches[k]? = some entries) :
      caches[k]? = some entries := by
    rw [hold k (Array.getElem?_eq_some_iff.1 h).1, h]
  refine ⟨⟨?_, (n, v) :: entries, ?_, fun m u hu => ?_⟩, hw.own, fun k k' hk => ?_, hw.single⟩
  · rw [heq]
  · simp [Array.getElem?_modify, hlt hentries]
  · rw [Keyed.lookup_cons] at hu
    split at hu
    · next h => rw [h, ← Option.some.inj hu, hv]
    · exact hfound m u hu
  · obtain ⟨linked, h, h', hvalue⟩ := hw.same k k' hk
    refine ⟨linked, ?_, h', hvalue⟩
    show (caches.modify slot _)[k]? = some linked
    rw [Array.getElem?_modify, if_neg (Ne.symm (hw.own k k' hk)), hlt h]

/-- A steady clause that runs comes to its outcome, and the layer remembers a value. -/
theorem Scope.query_layer_of_clause (ho : o.Plain) {e : Expr} (hsteady : e.Within .steady)
    {n : String} (he : bindings.lookup n = some e) {w : World}
    (hn : (w.caches.getD slot []).lookup n = none) :
    ∃ caches, (∀ k < w.caches.size, caches[k]? = w.caches[k]?) ∧
      ((Scope.layer slot bindings (.object o)).query n).run.run w =
        match ((e.eval (.object o)).run.run w₀).1 with
        | .ok v => (.ok v, { w with caches := caches.modify slot ((n, v) :: ·) })
        | .error x => (.error x, { w with caches := caches }) := by
  have hclause : (Expr.clauseRuns bindings (.object o)).lookup n = some (e.eval (.object o)) := by
    rw [lookup_clauseRuns, he]
    rfl
  obtain ⟨caches, hrun, hold⟩ := hsteady.eval_steady ho w w₀
  refine ⟨caches, hold, ?_⟩
  rw [Scope.layer]
  cases hx : ((e.eval (.object o)).run.run w₀).1 with
  | error x => exact Scope.query_of_clause_error hn hclause (hx ▸ hrun)
  | ok v => exact Scope.query_of_clause_ok hn hclause (hx ▸ hrun)

/-- A layer of steady clauses answers together with a scope that has their outcomes. -/
theorem Bond.together_layer (ho : o.Plain) (hsteady : ∀ b ∈ bindings, b.2.Within .steady)
    {scope : Scope} {n : String}
    (hbound : ∀ x, (outcomes bindings o w₀).lookup n = some x →
      ∀ w, (scope.query n).run.run w = (x, w))
    (hfree : (outcomes bindings o w₀).lookup n = none → scope.query n = o.query n) :
    (Bond.remembering slot (outcomes bindings o w₀)).Together .all links
      ((Scope.layer slot bindings (.object o)).query n) (scope.query n) Means.all.value := by
  have hb := Bond.closed_remembering slot (outcomes bindings o w₀)
  intro w w' hw
  obtain ⟨heq, entries, hentries, hfound⟩ := hw.alike
  have hcache : w.caches.getD slot [] = entries := getD_of_getElem? hentries
  cases hn : entries.lookup n with
  | some v =>
    rw [Scope.layer, Scope.query_of_remembered (hcache ▸ hn), hbound _ (hfound n v hn)]
    exact .ok le_rfl trivial hw
  | none =>
    have hn : (w.caches.getD slot []).lookup n = none := hcache ▸ hn
    have hout : (outcomes bindings o w₀).lookup n = _ := lookup_outcomes n
    cases he : bindings.lookup n with
    | none =>
      rw [he, Option.map_none] at hout
      have hclause : (Expr.clauseRuns bindings (.object o)).lookup n = none := by
        rw [lookup_clauseRuns, he]
        rfl
      rw [Scope.layer, Scope.query_of_unbound hn hclause, hfree hout]
      have hobject := hb.binds_object Means.closed_all links (o := o) trivial
      exact hobject.both links le_rfl n trivial w w' hw
    | some e =>
      rw [he, Option.map_some] at hout
      obtain ⟨caches, hold, hrun⟩ :=
        Scope.query_layer_of_clause ho (hsteady _ (mem_of_lookup he)) he hn
      rw [hbound _ hout, hrun]
      cases hx : ((e.eval (.object o)).run.run w₀).1 with
      | error x =>
        refine .error ⟨by rw [heq], entries, ?_, hfound⟩
        rw [← hentries]
        exact hold slot (Array.getElem?_eq_some_iff.1 hentries).1
      | ok v => exact .ok le_rfl trivial (Bond.linked_of_found hw hold (hx ▸ hout))

theorem Bond.binds_layer (ho : o.Plain) (hsteady : ∀ b ∈ bindings, b.2.Within .steady)
    {scope : Scope}
    (hbound : ∀ n x, (outcomes bindings o w₀).lookup n = some x →
      ∀ w, (scope.query n).run.run w = (x, w))
    (hfree : ∀ n, (outcomes bindings o w₀).lookup n = none → scope.query n = o.query n) :
    (Bond.remembering slot (outcomes bindings o w₀)).Binds .all links
      (Scope.layer slot bindings (.object o)) scope := by
  refine ⟨fun more _ n _ => Bond.together_layer ho hsteady (hbound n) (hfree n),
    fun hv log => ?_, fun hv log n => ?_⟩
  · have hc := Contract.closed_logged hv log
    have houter := hc.answers_object Means.closed_all (o := o) trivial
    refine hc.answers_clauses trivial ?_ houter
    rw [Expr.clauseRuns_eq_map]
    exact List.forall_mem_map.2 fun b _ => b.2.stepwise.keeps Means.closed_all hc _ houter
  · cases hn : (outcomes bindings o w₀).lookup n with
    | none =>
      rw [hfree n hn]
      exact (Contract.closed_logged hv log).answers_object Means.closed_all (o := o) trivial n
    | some x =>
      intro w hw
      rw [hbound n x hn]
      cases x with
      | error e => exact hw
      | ok v => exact ⟨trivial, hw⟩

/-! ### Values over an environment -/

/-- The values are found under their names. -/
theorem lookup_foldl_insert {values : List (String × Value)}
    (hdistinct : (values.map Prod.fst).Nodup) (table : List (String × Value)) (n : String) :
    (values.foldl (fun table b => Keyed.insert b.1 b.2 table) table).lookup n =
      (values.lookup n).or (table.lookup n) := by
  induction values generalizing table with
  | nil => rfl
  | cons b values ih =>
    obtain ⟨k, v⟩ := b
    obtain ⟨hfresh, hdistinct⟩ := List.nodup_cons.1 hdistinct
    rw [List.foldl_cons, ih hdistinct, Keyed.lookup_insert, Keyed.lookup_cons]
    by_cases h : n = k
    · have hnone : values.lookup n = none := by
        rw [h, List.lookup_eq_none_iff]
        intro b hb
        rw [bne_iff_ne]
        rintro rfl
        exact hfresh (List.mem_map.2 ⟨b, hb, rfl⟩)
      rw [hnone, if_pos h, if_pos h]
      rfl
    · rw [if_neg h, if_neg h]

theorem toObject_foldl_insert (values : List (String × Value)) (env : Environment) :
    (values.foldl (fun env b => env.insert b.1 b.2) env).toObject =
      .layer (values.foldl (fun table b => Keyed.insert b.1 b.2 table) env.entries)
        env.fallback := by
  induction values generalizing env with
  | nil => rfl
  | cons b values ih => rw [List.foldl_cons, ih, List.foldl_cons]; rfl

/-! ### The meaning of a `where` -/

/-- The same outcome, and the same world but for its caches. -/
def Coincide (y y' : Except EvalError Value × World) : Prop :=
  y.1 = y'.1 ∧ y.2 = { y'.2 with caches := y.2.caches }

theorem Expr.eval_clauses_coincide (ho : o.Plain) (body : Expr) (w₀ : World)
    (hsteady : ∀ b ∈ bindings, b.2.Within .steady) {scope : Scope}
    (hbound : ∀ n x, (outcomes bindings o w₀).lookup n = some x →
      ∀ w, (scope.query n).run.run w = (x, w))
    (hfree : ∀ n, (outcomes bindings o w₀).lookup n = none → scope.query n = o.query n)
    (w : World) :
    Coincide (((clauses body bindings).eval (.object o)).run.run w)
      ((body.eval scope).run.run w) := by
  have hb := Bond.closed_remembering w.caches.size (outcomes bindings o w₀)
  have hopened : ({ w with caches := w.caches.push [] } : World).caches[w.caches.size]? =
      some [] := Array.getElem?_push_size
  have hagree := body.stepwise.together Means.closed_all hb _ _ _
    (Bond.binds_layer ho hsteady hbound hfree) { w with caches := w.caches.push [] } w
    (.of_no_links ⟨rfl, [], hopened, fun _ _ h => nomatch h⟩)
  show Coincide ((body.eval (Scope.layer w.caches.size bindings (.object o))).run.run
    { w with caches := w.caches.push [] }) _
  obtain ⟨hsame, heq, -⟩ := hagree.same id
  exact ⟨hsame, by rw [heq]⟩

theorem query_definitions (found : List (String × Except EvalError Value)) (outer : Scope)
    (n : String) :
    (Scope.definitions (found.map fun b => (b.1, Run.ofExcept b.2)) outer).query n =
      match found.lookup n with
      | some x => Run.ofExcept x
      | none => outer.query n := by
  rw [Scope.query, lookup_map]
  cases found.lookup n <;> rfl

theorem query_foldl_insert {values : List (String × Value)}
    (hdistinct : (values.map Prod.fst).Nodup) (env : Environment) (n : String) :
    (Scope.object (values.foldl (fun env b => env.insert b.1 b.2) env.extend).toObject).query n =
      match values.lookup n with
      | some v => pure v
      | none => env.toObject.query n := by
  have hempty : List.lookup n env.extend.entries = none := rfl
  rw [toObject_foldl_insert, Scope.query, Object.query, lookup_foldl_insert hdistinct, hempty,
    Option.or_none]
  rfl

/-- **What a `where` means.** Its body comes to the same in a scope without memory that has
the outcomes of the clauses in the environment, and that asks the environment for all other
names. If all clauses have values, such a scope is a layer of them over the environment. -/
theorem Expr.eval_clauses_eq {env : Environment} (henv : env.toObject.Plain) (body : Expr)
    (hdistinct : (bindings.map Prod.fst).Nodup) (hsteady : ∀ b ∈ bindings, b.2.Within .steady)
    (w w₀ : World) :
    Coincide (((clauses body bindings).eval (.object env.toObject)).run.run w)
      ((body.eval (.definitions ((outcomes bindings env.toObject w₀).map
        fun b => (b.1, Run.ofExcept b.2)) (.object env.toObject))).run.run w) ∧
    ∀ values : List (String × Value),
      outcomes bindings env.toObject w₀ = values.map (fun b => (b.1, .ok b.2)) →
      Coincide (((clauses body bindings).eval (.object env.toObject)).run.run w)
        ((body.eval (.object (values.foldl (fun env b => env.insert b.1 b.2)
          env.extend).toObject)).run.run w) := by
  refine ⟨eval_clauses_coincide henv body w₀ hsteady (fun n x hn w => ?_) (fun n hn => ?_) w,
    fun values hvalues => ?_⟩
  · rw [query_definitions, hn]
    rfl
  · rw [query_definitions, hn]
    rfl
  · have hnames : values.map Prod.fst = bindings.map Prod.fst := by
      have hfst := congrArg (List.map Prod.fst) hvalues
      simpa [outcomes, Function.comp_def] using hfst.symm
    have hquery := query_foldl_insert (hnames ▸ hdistinct) env
    have hlookup (n : String) : (outcomes bindings env.toObject w₀).lookup n =
        (values.lookup n).map .ok := by
      rw [hvalues]
      exact lookup_map Except.ok values n
    refine eval_clauses_coincide henv body w₀ hsteady (fun n x hn w => ?_) (fun n hn => ?_) w
    · rw [hlookup, Option.map_eq_some_iff] at hn
      obtain ⟨v, hv, rfl⟩ := hn
      rw [hquery, hv]
      rfl
    · rw [hlookup, Option.map_eq_none_iff] at hn
      rw [hquery, hn]

/-- A clause that is asked for twice, and one that fails and is not asked for. The value of
the first may as well stand in a layer over the environment. -/
theorem eval_clauses_with_failing_clause :
    let env : Environment := ⟨[("k", .integer 2)], .nothing⟩
    let body : Expr := .call .map [.list [.integer 1, .integer 4],
      .binary .add (.name "value") (.name "x")]
    let x : String × Expr := ("x", .binary .add (.name "k") (.integer 1))
    let y : String × Expr := ("y", .call .head [.list []])
    let w := World.fresh (.ofWords fun _ => 0) fun _ _ => .ok .missing
    Coincide (((Expr.clauses body [x, y]).eval (.object env.toObject)).run.run w)
        ((body.eval (.definitions [("x", pure (.integer 3)),
          ("y", throw (.indexOutOfRange 0 0))] (.object env.toObject))).run.run w) ∧
      Coincide (((Expr.clauses body [x]).eval (.object env.toObject)).run.run w)
        ((body.eval (.object (env.extend.insert "x" (.integer 3)).toObject)).run.run w) := by
  intro env body x y w
  have henv : env.toObject.Plain := .layer (List.forall_mem_singleton.2 (.integer 2)) .nothing
  have hx : x.2.Within .steady :=
    .binary (show BinaryOp.add ≠ .dice by decide) (.name trivial) (.integer 1)
  have hy : y.2.Within .steady :=
    .call (show Builtin.head ≠ .loc by decide)
      (List.forall_mem_singleton.2 (.list (List.forall_mem_nil _)))
  have hboth : ∀ b ∈ [x, y], b.2.Within .steady :=
    List.forall_mem_cons.2 ⟨hx, List.forall_mem_singleton.2 hy⟩
  have hone : ∀ b ∈ [x], b.2.Within .steady := List.forall_mem_singleton.2 hx
  exact ⟨(Expr.eval_clauses_eq henv body (by decide) hboth w w).1,
    (Expr.eval_clauses_eq henv body (by decide) hone w w).2 [("x", .integer 3)] rfl⟩

end Formulary
