import Formulary.Proofs.Clauses
import Formulary.Proofs.Memory

/-! Names in chained clauses.

Each clause of a chain is a layer, the first one on top (`Scope.stack`). The expressions of a
clause run in the layers below it, and the body runs on top of all of them. Evaluation leads
from world to world step by step (`Leads`), and on the way a layer remembers only what it has
found itself (`Leads.faithful`). So a name is looked up in the first layer that binds it
(`Faithful.looksUp`). -/
namespace Formulary

namespace Scope

/-! ### Layers -/

/-- Layers over a scope, the first one on top. The lowest one remembers in `slot`, the others
in the slots behind it. -/
def stack (slot : Nat) : List (List (String × Expr)) → Scope → Scope
  | [], outer => outer
  | b :: bs, outer => layer (slot + bs.length) b (stack slot bs outer)

theorem stack_append (slot : Nat) (as bs : List (List (String × Expr))) (outer : Scope) :
    stack slot (as ++ bs) outer = stack (slot + bs.length) as (stack slot bs outer) := by
  induction as with
  | nil => rfl
  | cons b as ih =>
    rw [List.cons_append, stack, stack, ih, List.length_append]
    congr 1
    omega

end Scope

/-- The world with some new places for values. -/
def World.openCaches (count : Nat) (w : World) : World :=
  { w with caches := w.caches ++ Array.replicate count [] }

theorem World.openCaches_succ (count : Nat) (w : World) :
    w.openCaches (count + 1) =
      World.openCaches count { w with caches := w.caches.push [] } := by
  rw [openCaches, openCaches, Array.push_eq_append, Array.append_assoc]
  congr 2
  rw [Nat.add_comm, ← Array.replicate_append_replicate]
  rfl

open Scope (stack)
open ClauseChain (nest)

/-- The body of a chain runs on top of its layers. -/
theorem run_eval_nest (x : Expr) (bs : List (List (String × Expr))) (outer : Scope) (w : World) :
    ((nest x bs).eval outer).run.run w =
      (x.eval (stack w.caches.size bs outer)).run.run (w.openCaches bs.length) := by
  induction bs using List.reverseRecOn generalizing outer w with
  | nil => simp [nest, stack, World.openCaches]
  | append_singleton bs b ih =>
    have hnest : nest x (bs ++ [b]) = .clauses (nest x bs) b := by
      rw [nest, List.foldl_append]
      rfl
    have hopen : ((nest x (bs ++ [b])).eval outer).run.run w =
        ((nest x bs).eval (Scope.layer w.caches.size b outer)).run.run
          { w with caches := w.caches.push [] } := by
      rw [hnest, Expr.eval, Run.run_bind]
      rfl
    rw [hopen, ih, Scope.stack_append, List.length_append, Array.size_push,
      ← World.openCaches_succ]
    rfl

/-! ### What the layers remember -/

/-- Evaluation in the layers that are opened in a world leads from one world to another step by
step. It asks the host, draws, makes objects, opens caches and remembers values there. A layer
itself remembers what the expression of one of its clauses has just come to in the layers below. -/
inductive Leads (start : World) (bs : List (List (String × Expr))) (outer : Scope) :
    World → World → Prop where
  | refl (w : World) : Leads start bs outer w w
  | ask {u w : World} (h : Leads start bs outer u w) (lookup : Lookup) :
      Leads start bs outer u { w with log := w.log.push lookup }
  | draw {u w : World} (h : Leads start bs outer u w) (state : Nat) :
      Leads start bs outer u { w with state := state }
  | name {u w : World} (h : Leads start bs outer u w) (free : Nat) :
      Leads start bs outer u { w with free := free }
  | openCache {u w : World} (h : Leads start bs outer u w) :
      Leads start bs outer u { w with caches := w.caches.push [] }
  | elsewhere {u w : World} {k : Nat} (h : Leads start bs outer u w)
      (hk : k < start.caches.size ∨ start.caches.size + bs.length ≤ k) (n : String) (v : Value) :
      Leads start bs outer u { w with caches := w.caches.modify k ((n, v) :: ·) }
  | remember {u w w' : World} {before : List (List (String × Expr))} {b : List (String × Expr)}
      {rest : List (List (String × Expr))} {n : String} {e : Expr} {v : Value}
      (h : Leads start bs outer u w') (hbs : bs = before ++ b :: rest) (he : b.lookup n = some e)
      (hw : Leads start bs outer (start.openCaches bs.length) w)
      (hrun : (e.eval (stack start.caches.size rest outer)).run.run w = (.ok v, w'))
      (hclause : Leads start bs outer w w') :
      Leads start bs outer u
        { w' with caches := w'.caches.modify (start.caches.size + rest.length) ((n, v) :: ·) }

/-- The expression of a clause has come to the value on the way to a world, since the layers were
opened. `rest` are the layers below its own. -/
def Found (start : World) (bs rest : List (List (String × Expr))) (outer : Scope) (w : World)
    (e : Expr) (v : Value) : Prop :=
  ∃ w', Leads start bs outer (start.openCaches bs.length) w' ∧ Leads start bs outer w' w ∧
    ((e.eval (stack start.caches.size rest outer)).run.run w').1 = .ok v

/-- Each layer remembers values only of names that it binds, and only what their expressions
have come to. -/
def Faithful (start : World) (bs : List (List (String × Expr))) (outer : Scope) (w : World) :
    Prop :=
  ∀ before b rest, bs = before ++ b :: rest →
    ∃ entries, w.caches[start.caches.size + rest.length]? = some entries ∧
      ∀ n v, entries.lookup n = some v →
        ∃ e, b.lookup n = some e ∧ Found start bs rest outer w e v

/-- How a name is looked up in some of the layers that are opened in a world, the lower ones: the
first one that binds it answers, with what it remembers or else by the expression in the layers
below. A name that none of them binds is left to the scope around them. -/
def LooksUp (start : World) (bs lower : List (List (String × Expr))) (outer : Scope) (w : World)
    (n : String) : Prop :=
  let slot := start.caches.size
  let answer := ((stack slot lower outer).query n).run.run w
  ((∀ b ∈ lower, b.lookup n = none) → answer = (outer.query n).run.run w) ∧
  ∀ hidden b rest e, lower = hidden ++ b :: rest → (∀ b' ∈ hidden, b'.lookup n = none) →
    b.lookup n = some e →
    let clause := e.eval (stack slot rest outer)
    (∃ v, answer = (.ok v, w) ∧ Found start bs rest outer w e v) ∨
      answer = Run.next (fun v => do remember (slot + rest.length) n v; pure v) (clause.run.run w)

variable {start : World} {bs before behind : List (List (String × Expr))} {outer : Scope}
  {u w w' : World}

theorem Found.step {rest : List (List (String × Expr))} {e : Expr} {v : Value}
    (h : Found start bs rest outer w e v)
    (hstep : ∀ x, Leads start bs outer x w → Leads start bs outer x w') :
    Found start bs rest outer w' e v := by
  obtain ⟨x, hx, hxw, hv⟩ := h
  exact ⟨x, hx, hstep x hxw, hv⟩

namespace Faithful

/-- A step that does not change what the layers remember leaves them faithful. -/
theorem step (h : Faithful start bs outer w)
    (hstep : ∀ x, Leads start bs outer x w → Leads start bs outer x w')
    (hsame : ∀ k, start.caches.size ≤ k → k < start.caches.size + bs.length →
      w'.caches[k]? = w.caches[k]?) : Faithful start bs outer w' := by
  intro before b rest hbs
  obtain ⟨entries, hentries, hfound⟩ := h before b rest hbs
  have hlt : start.caches.size + rest.length < start.caches.size + bs.length := by
    rw [hbs, List.length_append, List.length_cons]
    omega
  refine ⟨entries, (hsame _ (Nat.le_add_right _ _) hlt).trans hentries, fun n v hn => ?_⟩
  obtain ⟨e, he, hv⟩ := hfound n v hn
  exact ⟨e, he, hv.step hstep⟩

/-- A layer that remembers what it has just found stays faithful. -/
theorem remember {b : List (String × Expr)} {rest : List (List (String × Expr))}
    {n : String} {e : Expr} {v : Value} (h : Faithful start bs outer w')
    (hbs : bs = before ++ b :: rest) (he : b.lookup n = some e)
    (hw : Leads start bs outer (start.openCaches bs.length) w)
    (hrun : (e.eval (stack start.caches.size rest outer)).run.run w = (.ok v, w'))
    (hclause : Leads start bs outer w w') :
    Faithful start bs outer
      { w' with caches := w'.caches.modify (start.caches.size + rest.length) ((n, v) :: ·) } := by
  have hstep (x : World) (hx : Leads start bs outer x w') := hx.remember hbs he hw hrun hclause
  intro before' b' rest' hbs'
  obtain ⟨entries, hentries, hfound⟩ := h before' b' rest' hbs'
  by_cases hlength : rest'.length = rest.length
  · obtain ⟨-, hcons⟩ := List.append_inj' (hbs'.symm.trans hbs) (by simp [hlength])
    obtain ⟨rfl, rfl⟩ := List.cons.inj hcons
    refine ⟨(n, v) :: entries, by simp [Array.getElem?_modify, hentries], fun m u hu => ?_⟩
    rw [Keyed.lookup_cons] at hu
    split at hu
    · next hm =>
      obtain rfl := Option.some.inj hu
      exact ⟨e, hm ▸ he, w, hw, hstep w hclause, congrArg Prod.fst hrun⟩
    · obtain ⟨e', he', hu'⟩ := hfound m u hu
      exact ⟨e', he', hu'.step hstep⟩
  · refine ⟨entries, ?_, fun m u hu => ?_⟩
    · show (w'.caches.modify _ _)[_]? = some entries
      rwa [Array.getElem?_modify, if_neg (by omega)]
    · obtain ⟨e', he', hu'⟩ := hfound m u hu
      exact ⟨e', he', hu'.step hstep⟩

/-- A faithful layer looks a name up as it should, and so do the layers below it. -/
theorem looksUp (h : Faithful start bs outer w) (hbs : bs = before ++ behind) (n : String) :
    LooksUp start bs behind outer w n := by
  induction behind generalizing before with
  | nil => exact ⟨fun _ => rfl, fun hidden b rest e hnil => absurd hnil (by simp)⟩
  | cons b behind ih =>
    obtain ⟨entries, hentries, hfound⟩ := h before b behind hbs
    have hcache := getD_of_getElem? hentries
    obtain ⟨hunbound, hbound⟩ := ih (hbs.trans (List.append_cons _ _ _))
    cases hb : b.lookup n with
    | none =>
      have hn : entries.lookup n = none := by
        cases hn : entries.lookup n with
        | none => rfl
        | some v =>
          obtain ⟨e, he, -⟩ := hfound n v hn
          rw [hb] at he
          cases he
      have hbelow : ((stack start.caches.size (b :: behind) outer).query n).run.run w =
          ((stack start.caches.size behind outer).query n).run.run w :=
        Scope.query_of_unbound (hcache.symm ▸ hn) (by rw [lookup_clauseRuns, hb]; rfl)
      refine ⟨fun hall => hbelow.trans (hunbound (List.forall_mem_cons.1 hall).2), ?_⟩
      intro hidden b' rest e heq hhidden he
      cases hidden with
      | nil =>
        obtain ⟨rfl, -⟩ := List.cons.inj heq
        rw [hb] at he
        cases he
      | cons b'' hidden =>
        obtain ⟨rfl, hrest⟩ := List.cons.inj heq
        rw [hbelow]
        exact hbound hidden b' rest e hrest (List.forall_mem_cons.1 hhidden).2 he
    | some e =>
      refine ⟨fun hall => absurd ((List.forall_mem_cons.1 hall).1.symm.trans hb) (by simp), ?_⟩
      intro hidden b' rest e' heq hhidden he'
      cases hidden with
      | cons b'' hidden =>
        obtain ⟨rfl, -⟩ := List.cons.inj heq
        exact absurd ((List.forall_mem_cons.1 hhidden).1.symm.trans hb) (by simp)
      | nil =>
        obtain ⟨rfl, rfl⟩ := List.cons.inj heq
        cases hn : entries.lookup n with
        | some v =>
          obtain ⟨e'', he'', hv⟩ := hfound n v hn
          obtain rfl := Option.some.inj (he''.symm.trans he')
          exact .inl ⟨v, Scope.query_of_remembered (hcache.symm ▸ hn), hv⟩
        | none =>
          refine .inr ?_
          have hclause : (Expr.clauseRuns b (stack start.caches.size behind outer)).lookup n =
              some (e'.eval (stack start.caches.size behind outer)) := by
            rw [lookup_clauseRuns, he']
            rfl
          rw [stack, Scope.layer, Scope.query_of_forgotten (hcache.symm ▸ hn), hclause]

end Faithful

theorem faithful_opened (start : World) (bs : List (List (String × Expr))) (outer : Scope) :
    Faithful start bs outer (start.openCaches bs.length) := by
  intro before b rest hbs
  refine ⟨[], ?_, fun n v hv => nomatch hv⟩
  have hlt : rest.length < bs.length := by
    rw [hbs, List.length_append, List.length_cons]
    omega
  simp [World.openCaches, hlt]

namespace Leads

theorem size_le (h : Leads start bs outer u w) : u.caches.size ≤ w.caches.size := by
  induction h with
  | refl w => exact Nat.le_refl _
  | ask _ _ ih | draw _ _ ih | name _ _ ih => exact ih
  | openCache _ ih => exact ih.trans (by simp)
  | elsewhere _ _ n v ih => exact ih.trans (by simp)
  | remember _ _ _ _ _ _ ih => exact ih.trans (by simp)

/-- All layers have their slots, and what evaluation opens is behind these. -/
theorem slots_le (h : Leads start bs outer (start.openCaches bs.length) w) :
    start.caches.size + bs.length ≤ w.caches.size := by
  have hsize := h.size_le
  rwa [World.openCaches, Array.size_append, Array.size_replicate] at hsize

/-- **Evaluation leaves the layers faithful.** -/
theorem faithful (h : Leads start bs outer (start.openCaches bs.length) w) :
    Faithful start bs outer w := by
  generalize hu : start.openCaches bs.length = u at h
  induction h with
  | refl w => exact hu ▸ faithful_opened start bs outer
  | ask h lookup ih => exact (ih hu).step (fun _ hx => hx.ask lookup) fun _ _ _ => rfl
  | draw h state ih => exact (ih hu).step (fun _ hx => hx.draw state) fun _ _ _ => rfl
  | name h free ih => exact (ih hu).step (fun _ hx => hx.name free) fun _ _ _ => rfl
  | @openCache u w h ih =>
    refine (ih hu).step (fun _ hx => hx.openCache) fun k _ hk => ?_
    have hlt := Nat.lt_of_lt_of_le hk (slots_le (hu ▸ h))
    show (w.caches.push [])[k]? = _
    rw [Array.getElem?_push_lt hlt, ← Array.getElem?_eq_getElem hlt]
  | @elsewhere u w k h hk n v ih =>
    refine (ih hu).step (fun _ hx => hx.elsewhere hk n v) fun k' hle hlt => ?_
    show (w.caches.modify k _)[k']? = _
    rw [Array.getElem?_modify, if_neg (by omega)]
  | remember h hbs he hw hrun hclause ih => exact (ih hu).remember hbs he hw hrun hclause

end Leads

/-! ### Where evaluation leads -/

/-- Evaluation that has come from the opening of the layers to the first world goes on from it. -/
def Contract.leads (start : World) (bs : List (List (String × Expr))) (outer : Scope) (u : World) :
    Contract where
  world w := Leads start bs outer (start.openCaches bs.length) w ∧ Leads start bs outer u w
  slot k := k < start.caches.size ∨ start.caches.size + bs.length ≤ k
  error _ w := Leads start bs outer (start.openCaches bs.length) w ∧ Leads start bs outer u w

theorem Contract.closed_leads : (Contract.leads start bs outer u).Closed .all where
  host handle key w _ hw := by
    have hasked := And.intro (hw.1.ask ⟨handle, .query, key⟩) (hw.2.ask ⟨handle, .query, key⟩)
    cases w.answer w.log ⟨handle, .query, key⟩ with
    | error e => exact hasked
    | ok v => exact ⟨trivial, hasked⟩
  draw _ n _ hw := ⟨hw.1.draw n, hw.2.draw n⟩
  name _ n _ _ hw := ⟨hw.1.name n, hw.2.name n⟩
  openCache _ hw := ⟨.inr hw.1.slots_le, hw.1.openCache, hw.2.openCache⟩
  remember _ _ key v hk hw _ := ⟨hw.1.elsewhere hk key v, hw.2.elsewhere hk key v⟩
  remembered _ _ _ _ _ _ := trivial
  fail _ _ hw _ := hw

theorem Contract.answers_stack (houter : outer.Built start.caches.size)
    (hbs : bs = before ++ behind) (u : World) :
    (Contract.leads start bs outer u).Answers .all (stack start.caches.size behind outer) := by
  induction behind generalizing before u with
  | nil => exact houter.answers_of_closed closed_leads fun k hk => .inl hk
  | cons b behind ih =>
    have hbelow := ih (hbs.trans (List.append_cons _ _ _))
    refine answers_layer closed_leads (hbelow u) ?_
    intro n e v w w' he hrun hw hw'
    -- The clause itself goes on from the world in which it is begun.
    have hclause := e.stepwise.keeps Means.closed_all closed_leads _ (hbelow w) w ⟨hw.1, .refl w⟩
    rw [hrun] at hclause
    obtain ⟨-, -, hclause⟩ := hclause
    exact ⟨hw'.1.remember hbs he hw.1 hrun hclause, hw'.2.remember hbs he hw.1 hrun hclause⟩

/-- The worlds that evaluation comes to in the layers of a chain that are opened in a world,
by computations for the body or for a clause. -/
inductive Reached (start : World) (bs : List (List (String × Expr))) (outer : Scope) :
    World → Prop where
  | opened : Reached start bs outer (start.openCaches bs.length)
  | step {w : World} {before behind : List (List (String × Expr))} {α : Type}
      {m : Scope → Run α} {post : α → Prop} (h : Reached start bs outer w)
      (hbs : bs = before ++ behind) (hm : Stepwise .all m post) :
      Reached start bs outer ((m (stack start.caches.size behind outer)).run.run w).2

theorem Reached.leads (houter : outer.Built start.caches.size) (h : Reached start bs outer w) :
    Leads start bs outer (start.openCaches bs.length) w := by
  induction h with
  | opened => exact .refl _
  | @step w before behind α m post _ hbs hm ih =>
    have hkeeps := hm.keeps Means.closed_all Contract.closed_leads _
      (Contract.answers_stack houter hbs w)
    exact (hkeeps.world_after (fun _ _ => id) ⟨ih, .refl w⟩).1

/-! ### Chains -/

/-- **Chained clauses nest to the left**, and `not`s before them stay outside. The body runs
on top of the layers of all clauses; at any time a name is looked up there in the first
clause that binds it. The expressions of a clause run in the layers of the later clauses, and
see the names of these in the same way, but neither those of their own clause nor of those
before it. -/
theorem ClauseChain.nests_left {literal : String → Except ParseError Template}
    (c : ClauseChain literal) :
    parseTokens literal c.tokens = .ok c.tree ∧
    ∀ (outer : Scope) (start : World), outer.Built start.caches.size →
      ((nest c.body.tree c.bindings).eval outer).run.run start =
        (c.body.tree.eval (stack start.caches.size c.bindings outer)).run.run
          (start.openCaches c.bindings.length) ∧
      ∀ w, Reached start c.bindings outer w → ∀ before behind, c.bindings = before ++ behind →
        ∀ n, LooksUp start c.bindings behind outer w n :=
  ⟨c.parseTokens_tokens, fun outer start houter =>
    ⟨run_eval_nest c.body.tree c.bindings outer start, fun _ hw _ _ hbs n =>
      (hw.leads houter).faithful.looksUp hbs n⟩⟩

namespace ClauseChain

/-- The chain `not a where a = not b, b = c where c = -1`. -/
def ofTwoClauses : ClauseChain Template.parse where
  nots := [⟨⟨.word, "not", 0⟩, .not, rfl, rfl⟩]
  isNot := by decide
  body := ⟨[⟨.word, "a", 4⟩], .name "a", by cbv, by decide⟩
  first := by decide
  clauses :=
    [(⟨.word, "where", 6⟩,
      { first := ⟨⟨[⟨.word, "not", 16⟩, ⟨.word, "b", 20⟩], .unary .not (.name "b"), by cbv,
          by decide⟩, ⟨.word, "a", 12⟩, ⟨.operator, "=", 14⟩, rfl, rfl, rfl, rfl, by decide⟩
        others := [(⟨.comma, ",", 21⟩, ⟨⟨[⟨.word, "c", 27⟩], .name "c", by cbv, by decide⟩,
          ⟨.word, "b", 23⟩, ⟨.operator, "=", 25⟩, rfl, rfl, rfl, rfl, by decide⟩)]
        commas := by simp
        distinct := by decide }),
     (⟨.word, "where", 29⟩,
      { first := ⟨⟨[⟨.operator, "-", 39⟩, ⟨.integer, "1", 40⟩], .unary .negate (.integer 1), by cbv,
          by decide⟩, ⟨.word, "c", 35⟩, ⟨.operator, "=", 37⟩, rfl, rfl, rfl, rfl, by decide⟩
        others := []
        commas := by simp
        distinct := by decide })]
  isWhere := by decide

/-- In `a = not b` the `b` is not the one bound beside it. -/
theorem nests_left_ofTwoClauses :
    let start := World.fresh (.ofWords fun _ => 0) fun _ _ => .ok .missing
    let later : List (String × Expr) := [("c", .unary .negate (.integer 1))]
    let opened := start.openCaches 2
    tokenize "not a where a = not b, b = c where c = -1" = .ok ofTwoClauses.tokens ∧
      parseTokens Template.parse ofTwoClauses.tokens =
        .ok (.unary .not (.clauses (.clauses (.name "a")
          [("a", .unary .not (.name "b")), ("b", .name "c")]) later)) ∧
      Scope.Built start.caches.size (.object .nothing) ∧
      Reached start ofTwoClauses.bindings (.object .nothing) opened ∧
      ((stack 0 [later] (.object .nothing)).query "b").run.run opened = (.ok .missing, opened) := by
  intro start later opened
  have houter : Scope.Built start.caches.size (.object .nothing) := .object _
  have hopened : Reached start ofTwoClauses.bindings (.object .nothing) opened := .opened
  obtain ⟨hparse, hscopes⟩ := ofTwoClauses.nests_left
  have hlooksUp := (hscopes (.object .nothing) start houter).2 opened hopened
    [[("a", .unary .not (.name "b")), ("b", .name "c")]] [later] rfl "b"
  exact ⟨by cbv, hparse, houter, hopened, hlooksUp.1 (by decide)⟩

end ClauseChain

end Formulary
