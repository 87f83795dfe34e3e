import Formulary.Proofs.Outcome
import Formulary.Proofs.Within

/-! Contracts of runs.

A contract says which worlds a run may start in, which caches it may read and how it may
fail. A run `Keeps` it if from a world of the contract it comes to another one with a result
as promised, or fails as allowed. A contract that is `Closed` under the single steps of
evaluation is kept by every stepwise computation, in all scopes that keep it themselves
(`Stepwise.keeps`); the scopes that evaluation makes do. -/
namespace Formulary

structure Contract where
  world : World → Prop
  /-- The caches that may be read. -/
  slot : Nat → Prop
  /-- How a run may fail, and the world it may leave. -/
  error : EvalError → World → Prop

namespace Contract

variable {c : Contract} {α β : Type} {r : Run α} {post : α → Prop} {Q : β → Prop}

/-- What the contract promises of an outcome. -/
def Promises (c : Contract) (post : α → Prop) : Except EvalError α × World → Prop
  | (.ok a, w) => post a ∧ c.world w
  | (.error e, w) => c.error e w

/-- The run keeps the contract, and its result is as promised. -/
def Keeps (c : Contract) (r : Run α) (post : α → Prop) : Prop :=
  ∀ w, c.world w → c.Promises post (r.run.run w)

namespace Keeps

theorem pure {a : α} (h : post a) : c.Keeps (Pure.pure a) post :=
  fun _ hw => ⟨h, hw⟩

theorem bind {f : α → Run β} (h : c.Keeps r post) (hf : ∀ a, post a → c.Keeps (f a) Q) :
    c.Keeps (r >>= f) Q := by
  intro w hw
  have := h w hw
  rw [Run.run_bind]
  revert this
  rcases r.run.run w with ⟨_ | a, w'⟩
  · exact id
  · exact fun ⟨ha, hw'⟩ => hf a ha w' hw'

theorem map {f : α → β} (h : c.Keeps r post) (hf : ∀ a, post a → Q (f a)) :
    c.Keeps (f <$> r) Q := by
  rw [← bind_pure_comp]
  exact h.bind fun a ha => .pure (hf a ha)

theorem mono {post' : α → Prop} (h : c.Keeps r post) (hpost : ∀ a, post a → post' a) :
    c.Keeps r post' := by
  have hmap := h.map (f := id) hpost
  rwa [id_map] at hmap

/-! What is known of an outcome. -/

section
variable {w w' : World} {a : α} {e : EvalError} (h : c.Keeps r post) (hw : c.world w)
include h hw

theorem of_ok (hrun : r.run.run w = (.ok a, w')) : post a ∧ c.world w' := by
  have hkeeps := h w hw
  rwa [hrun] at hkeeps

theorem of_error (hrun : r.run.run w = (.error e, w')) : c.error e w' := by
  have hkeeps := h w hw
  rwa [hrun] at hkeeps

/-- A run that must not fail succeeds. -/
theorem exists_ok (herror : ∀ e w, ¬ c.error e w) :
    ∃ a w', r.run.run w = (.ok a, w') ∧ post a ∧ c.world w' := by
  rcases hrun : r.run.run w with ⟨e | a, w'⟩
  · exact absurd (h.of_error hw hrun) (herror e w')
  · exact ⟨a, w', rfl, h.of_ok hw hrun⟩

end

/-- Where a failed run too leaves a world of the contract, every run does. -/
theorem world_after {w : World} (h : c.Keeps r post) (herror : ∀ e w, c.error e w → c.world w)
    (hw : c.world w) : c.world (r.run.run w).2 := by
  have hkeeps := h w hw
  revert hkeeps
  rcases r.run.run w with ⟨e | a, w'⟩
  · exact herror e w'
  · exact And.right

/-- A computation that cannot fail. -/
theorem lift {x : Always α} (h : ∀ w, c.world w → post (x.run w).1 ∧ c.world (x.run w).2) :
    c.Keeps (liftM x : Run α) post :=
  fun w hw => h w hw

end Keeps

/-! ### Closed contracts -/

/-- The contract allows what evaluation does by itself, as far as the means do. -/
structure Closed (c : Contract) (A : Means) : Prop where
  /-- The answer of the host to a look-up, which is noted in any case. -/
  host : ∀ handle key w, A.object (.host handle) → c.world w →
    c.Promises (fun _ => True) (w.answer w.log ⟨handle, .query, key⟩,
      { w with log := w.log.push ⟨handle, .query, key⟩ })
  draw : ∀ w n, A.operator .dice → c.world w → c.world { w with state := n }
  name : ∀ w n o, A.object o → c.world w → c.world { w with free := n }
  openCache : ∀ w, c.world w →
    c.slot w.caches.size ∧ c.world { w with caches := w.caches.push [] }
  remember : ∀ w slot key v, c.slot slot → c.world w → A.value v →
    c.world { w with caches := w.caches.modify slot ((key, v) :: ·) }
  remembered : ∀ w slot entry, c.slot slot → c.world w →
    entry ∈ w.caches.getD slot [] → A.value entry.2
  fail : ∀ w e, c.world w → A.error e → c.error e w

/-- A contract on the caches alone, which failed runs keep too, is closed if new caches and
values in the caches that may be read do not break it. -/
theorem Closed.of_caches (herror : ∀ e w, c.world w → c.error e w)
    (hcaches : ∀ w w' : World, w'.caches = w.caches → c.world w → c.world w')
    (hopen : ∀ w, c.world w →
      c.slot w.caches.size ∧ c.world { w with caches := w.caches.push [] })
    (hremember : ∀ w slot key v, c.slot slot → c.world w →
      c.world { w with caches := w.caches.modify slot ((key, v) :: ·) }) : c.Closed .all where
  host handle key w _ hw := by
    have hw' : c.world { w with log := w.log.push ⟨handle, .query, key⟩ } := hcaches w _ rfl hw
    cases w.answer w.log ⟨handle, .query, key⟩ with
    | error e => exact herror e _ hw'
    | ok v => exact ⟨trivial, hw'⟩
  draw w _ _ hw := hcaches w _ rfl hw
  name w _ _ _ hw := hcaches w _ rfl hw
  openCache := hopen
  remember w slot key v hslot hw _ := hremember w slot key v hslot hw
  remembered _ _ _ _ _ _ := trivial
  fail w e hw _ := herror e w hw

/-- Whatever the scope is asked for, it answers within the contract. -/
def Answers (c : Contract) (A : Means) (scope : Scope) : Prop :=
  ∀ name, c.Keeps (scope.query name) A.value

namespace Closed

variable {A : Means} (hc : c.Closed A)
include hc

/-! ### Steps -/

theorem keeps_roll (hA : A.Closed) (hdice : A.operator .dice) (count faces : Int64) :
    c.Keeps (roll count faces) fun _ => True := by
  have hget : c.Keeps (get : Run World) c.world := fun w hw => ⟨hw, hw⟩
  unfold roll
  split
  · exact .pure trivial
  · refine hget.bind fun w hw => ?_
    have hset (n : Nat) : c.Keeps (set { w with state := n } : Run PUnit) fun _ => True :=
      fun _ _ => ⟨trivial, hc.draw w n hdice hw⟩
    simp only
    refine (hset _).bind fun _ _ => ?_
    split
    · exact .pure trivial
    · exact fun w' hw' => hc.fail w' _ hw' (hA.fail _ rfl)

theorem keeps_askHost (hA : A.Closed) {handle : Nat} (ho : A.object (.host handle)) (key : String) :
    c.Keeps (ExceptT.mk (askHost ⟨handle, .query, key⟩)) A.value := by
  intro w hw
  have hanswer := hc.host handle key w ho hw
  show c.Promises A.value (w.answer w.log ⟨handle, .query, key⟩, _)
  revert hanswer
  rcases w.answer w.log ⟨handle, .query, key⟩ with e | v
  · exact id
  · exact fun ⟨_, hw'⟩ => ⟨hA.host handle v ho, hw'⟩

/-! ### Scopes -/

theorem answers_clauses {slot : Nat} {bindings : List (String × Run Value)} {outer : Scope}
    (hslot : c.slot slot) (hb : ∀ b ∈ bindings, c.Keeps b.2 A.value)
    (houter : c.Answers A outer) : c.Answers A (.clauses slot bindings outer) := by
  intro name
  have hremembered : c.Keeps (liftM (Formulary.remembered slot name) : Run (Option Value))
      fun found => ∀ v ∈ found, A.value v := by
    refine .lift fun w hw => ⟨fun v hv => ?_, hw⟩
    exact hc.remembered w slot _ hslot hw (mem_of_lookup hv)
  unfold Scope.query
  refine hremembered.bind fun found hfound => ?_
  split
  · next v => exact .pure (hfound v rfl)
  · split
    · next clause hclause =>
      refine (hb _ (mem_of_lookup hclause)).bind fun v hv => ?_
      have hremember : c.Keeps (liftM (Formulary.remember slot name v) : Run Unit) fun _ => True :=
        .lift fun w hw => ⟨trivial, hc.remember w slot name v hslot hw hv⟩
      exact hremember.bind fun _ _ => .pure hv
    · exact houter name

theorem keeps_openClauses {bindings : List (String × Run Value)} {outer : Scope}
    (hb : ∀ b ∈ bindings, c.Keeps b.2 A.value) (houter : c.Answers A outer) :
    c.Keeps (liftM (Scope.openClauses bindings outer) : Run Scope) (c.Answers A) :=
  .lift fun w hw =>
    have ⟨hslot, hw'⟩ := hc.openCache w hw
    ⟨hc.answers_clauses hslot hb houter, hw'⟩

end Closed

theorem answers_elements {A : Means} {bindings : List (String × Value)} {outer : Scope}
    (hb : ∀ b ∈ bindings, A.value b.2) (houter : c.Answers A outer) :
    c.Answers A (.elements bindings outer) := by
  intro name
  unfold Scope.query
  split
  · next v hv => exact .pure (hb _ (mem_of_lookup hv))
  · exact houter name

end Contract

/-! ### Stepwise computations -/

variable {A : Means} {c : Contract}

/-- **What is made of steps that keep to a contract keeps to it.** -/
theorem Stepwise.keeps {α : Type} {m : Scope → Run α} {post : α → Prop} (hA : A.Closed)
    (hc : c.Closed A) (h : Stepwise A m post) :
    ∀ scope, c.Answers A scope → c.Keeps (m scope) post := by
  induction h with
  | pure h => exact fun _ _ => .pure h
  | fail h => exact fun _ _ w hw => hc.fail w _ hw h
  | bind _ _ ih ihf => exact fun scope hs => (ih scope hs).bind fun a ha => ihf a ha scope hs
  | @name n _ => exact fun _ hs => hs n
  | roll hdice => exact fun _ _ => hc.keeps_roll hA hdice _ _
  | object ho =>
    exact fun _ _ => .lift fun w hw => ⟨(hA.reference _ _).2 ho, hc.name w _ _ ho hw⟩
  | document ho =>
    exact fun _ _ => .lift fun w hw => ⟨hA.value_ofDocument ho w.free _, hc.name w _ _ ho hw⟩
  | ask ho => exact fun _ _ => hc.keeps_askHost hA ho _
  | inside _ _ iho ih => exact fun scope hs => ih _ fun n => iho n scope hs
  | elements hb _ ih => exact fun scope hs => ih _ (Contract.answers_elements hb hs)
  | @clauses _ _ _ bindings _ _ ihb ih =>
    intro scope hs
    have hbindings : ∀ b ∈ bindings.map fun b => (b.1, b.2 scope), c.Keeps b.2 A.value :=
      List.forall_mem_map.2 fun b hb => ihb b hb scope hs
    exact (hc.keeps_openClauses hbindings hs).bind fun inner hinner => ih inner hinner

/-- So do the trees that are within the means. -/
theorem Expr.Within.keeps (hA : A.Closed) (hc : c.Closed A) {e : Expr}
    (h : e.Within A.toVocabulary) {scope : Scope} (hs : c.Answers A scope) :
    c.Keeps (e.eval scope) A.value :=
  (h.stepwise hA).keeps hA hc scope hs

/-- An object that is asked in steps answers within the contract. -/
theorem Contract.Closed.answers_of_stepwise (hA : A.Closed) (hc : c.Closed A) {o : Object}
    (ho : ∀ n, Stepwise A (fun _ => o.query n) A.value) : c.Answers A (.object o) := by
  have hnothing : c.Answers A (.object .nothing) := fun _ => .pure (hA.integer 0)
  exact fun n => (ho n).keeps hA hc _ hnothing

theorem Contract.Closed.answers_object (hA : A.Closed) (hc : c.Closed A) {o : Object}
    (ho : A.object o) : c.Answers A (.object o) :=
  hc.answers_of_stepwise hA (Stepwise.query hA ho)

/-! ### Remembered values -/

theorem mem_getD_push {α : Type} {caches : Array (List α)} {slot : Nat} {entry : α}
    (h : entry ∈ (caches.push []).getD slot []) : entry ∈ caches.getD slot [] := by
  rw [Array.getD_eq_getD_getElem?, Array.getElem?_push] at h
  split at h
  · cases h
  · rwa [Array.getD_eq_getD_getElem?]

theorem mem_getD_modify {α : Type} {caches : Array (List α)} {changed slot : Nat} {new entry : α}
    (h : entry ∈ (caches.modify changed (new :: ·)).getD slot []) :
    entry = new ∨ entry ∈ caches.getD slot [] := by
  rw [Array.getD_eq_getD_getElem?, Array.getElem?_modify] at h
  rw [Array.getD_eq_getD_getElem?]
  split at h
  · cases hslot : caches[slot]? with
    | none => simp [hslot] at h
    | some entries => simpa [hslot] using h
  · exact .inr h

/-- The caches from `base` on hold values of one sort only. -/
def World.Remembers (p : Value → Prop) (base : Nat) (w : World) : Prop :=
  base ≤ w.caches.size ∧ ∀ slot, base ≤ slot → ∀ entry ∈ w.caches.getD slot [], p entry.2

namespace World.Remembers

variable {p : Value → Prop} {base : Nat} {w : World}

/-- No caches are there beyond the last one. -/
theorem refl (w : World) : w.Remembers p w.caches.size := by
  refine ⟨Nat.le_refl _, fun slot hslot entry hentry => ?_⟩
  rw [Array.getD_eq_getD_getElem?, Array.getElem?_eq_none hslot] at hentry
  cases hentry

theorem push (h : w.Remembers p base) :
    World.Remembers p base { w with caches := w.caches.push [] } := by
  refine ⟨?_, fun slot hslot entry hentry => h.2 slot hslot entry (mem_getD_push hentry)⟩
  rw [Array.size_push]
  exact Nat.le_succ_of_le h.1

theorem remember (h : w.Remembers p base) (changed : Nat) (key : String) {v : Value} (hv : p v) :
    World.Remembers p base { w with caches := w.caches.modify changed ((key, v) :: ·) } := by
  refine ⟨?_, fun slot hslot entry hentry => ?_⟩
  · rw [Array.size_modify]
    exact h.1
  · obtain rfl | hold := mem_getD_modify hentry
    · exact hv
    · exact h.2 slot hslot entry hold

end World.Remembers

end Formulary
