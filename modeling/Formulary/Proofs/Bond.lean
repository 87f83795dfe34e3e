import Formulary.Proofs.Contract
import Mathlib.Order.PropInstances

/-! Bonds between runs.

A bond says how the worlds of two runs are alike. The runs need not use the same caches:
links say which cache of one goes with which of the other, and linked caches hold the same
values. Two runs go `Together` if from linked worlds they come to the same outcome and to
linked worlds again, with more links if caches were opened on the way, or if they part in a
way that the bond foresees. A bond that is `Closed` under the single steps of evaluation
keeps every stepwise computation together in two scopes whose look-ups go together
(`Stepwise.together`). -/
namespace Formulary

/-- Which caches of two runs go with each other. -/
abbrev Links := Nat → Nat → Prop

structure Bond where
  /-- The worlds are alike, whatever linked caches hold. -/
  alike : World → World → Prop
  /-- The caches of the first run that may be linked. -/
  own : Nat → Prop
  /-- The runs have parted and need not agree any more. -/
  apart : World → World → Prop

namespace Bond

variable {b : Bond} {A : Means} {links more : Links} {α β : Type} {r r' : Run α}
  {post : α → Prop} {Q : β → Prop} {w w' : World}

/-- The worlds are alike, and linked caches hold the same values. -/
structure Linked (b : Bond) (A : Means) (links : Links) (w w' : World) : Prop where
  alike : b.alike w w'
  own : ∀ k k', links k k' → b.own k
  same : ∀ k k', links k k' → ∃ entries, w.caches[k]? = some entries ∧
    w'.caches[k']? = some entries ∧ ∀ entry ∈ entries, A.value entry.2
  single : ∀ k k' j j', links k k' → links j j' → (k = j ↔ k' = j')

/-- What two runs come to: the same, or they have parted. -/
inductive Agree (b : Bond) (A : Means) (links : Links) (post : α → Prop) :
    Except EvalError α × World → Except EvalError α × World → Prop where
  | ok {more : Links} {a : α} {w w' : World} (hle : links ≤ more) (ha : post a)
      (hw : b.Linked A more w w') : Agree b A links post (.ok a, w) (.ok a, w')
  | error {e : EvalError} {w w' : World} (hw : b.alike w w') :
      Agree b A links post (.error e, w) (.error e, w')
  | apart {x x' : Except EvalError α} {w w' : World} (hx : ∀ a, x = .ok a → post a)
      (hx' : ∀ a, x' = .ok a → post a) (hw : b.apart w w') : Agree b A links post (x, w) (x', w')

theorem Agree.mono {y y' : Except EvalError α × World} (h : b.Agree A more post y y')
    (hle : links ≤ more) : b.Agree A links post y y' := by
  cases h with
  | ok hle' ha hw => exact .ok (hle.trans hle') ha hw
  | error hw => exact .error hw
  | apart hx hx' hw => exact .apart hx hx' hw

/-- Runs that have not parted have the same outcome, and their worlds are alike. -/
theorem Agree.same {y y' : Except EvalError α × World} (h : b.Agree A links post y y')
    (hapart : ¬ b.apart y.2 y'.2) : y.1 = y'.1 ∧ b.alike y.2 y'.2 := by
  cases h with
  | ok _ _ hw => exact ⟨rfl, hw.alike⟩
  | error hw => exact ⟨rfl, hw⟩
  | apart _ _ hw => exact absurd hw hapart

/-- From linked worlds the two runs come to the same, or part. -/
def Together (b : Bond) (A : Means) (links : Links) (r r' : Run α) (post : α → Prop) : Prop :=
  ∀ w w', b.Linked A links w w' → b.Agree A links post (r.run.run w) (r'.run.run w')

end Bond

/-! ### Runs that have parted -/

/-- The log goes on from `log`. -/
def Contract.logged (log : Array Lookup) : Contract where
  world w := log.toList <+: w.log.toList
  slot _ := True
  error _ w := log.toList <+: w.log.toList

theorem Contract.closed_logged {A : Means} (hA : ∀ v, A.value v) (log : Array Lookup) :
    (Contract.logged log).Closed A where
  host handle key w _ hw := by
    have hlog : log.toList <+: (w.log.push ⟨handle, .query, key⟩).toList := by
      rw [Array.toList_push]
      exact hw.trans (List.prefix_append _ _)
    cases w.answer w.log ⟨handle, .query, key⟩ with
    | error e => exact hlog
    | ok v => exact ⟨trivial, hlog⟩
  draw _ _ _ hw := hw
  name _ _ _ _ hw := hw
  openCache _ hw := ⟨trivial, hw⟩
  remember _ _ _ _ _ hw _ := hw
  remembered _ _ _ _ _ _ := hA _
  fail _ _ hw _ := hw

/-- A run that only adds to the log goes on from an outcome. -/
theorem Contract.next_logged {α β : Type} {post : α → Prop} {Q : β → Prop} {f : α → Run β}
    (hf : ∀ a, post a → ∀ log, (Contract.logged log).Keeps (f a) Q)
    {x : Except EvalError α} (hx : ∀ a, x = .ok a → post a) (w : World) :
    (∀ q, (Run.next f (x, w)).1 = .ok q → Q q) ∧
      w.log.toList <+: (Run.next f (x, w)).2.log.toList := by
  cases x with
  | error e => exact ⟨fun _ hq => (by cases hq), List.prefix_refl _⟩
  | ok a =>
    have hkeeps := hf a (hx a rfl) w.log w (List.prefix_refl _)
    rw [Run.next]
    revert hkeeps
    rcases (f a).run.run w with ⟨_ | q, w'⟩
    · exact fun hw => ⟨fun _ hq => (by cases hq), hw⟩
    · rintro ⟨hq, hw⟩
      exact ⟨fun _ hq' => Except.ok.inj hq' ▸ hq, hw⟩

namespace Bond

variable {b : Bond} {A : Means} {links more : Links} {α β : Type} {r r' : Run α}
  {post : α → Prop} {Q : β → Prop} {w w' : World}

/-- Two scopes answer together, from now on and after more caches are opened. Runs that have
parted only add to the log; they part only by means that allow all values. -/
structure Binds (b : Bond) (A : Means) (links : Links) (scope scope' : Scope) : Prop where
  both : ∀ more, links ≤ more → ∀ n, A.name n →
    b.Together A more (scope.query n) (scope'.query n) A.value
  first : (∀ v, A.value v) → ∀ log, (Contract.logged log).Answers A scope
  second : (∀ v, A.value v) → ∀ log, (Contract.logged log).Answers A scope'

theorem Binds.mono {scope scope' : Scope} (h : b.Binds A links scope scope') (hle : links ≤ more) :
    b.Binds A more scope scope' :=
  ⟨fun more' hle' => h.both more' (hle.trans hle'), h.first, h.second⟩

/-! ### Closed bonds -/

/-- The bond allows what evaluation does by itself, as far as the means do. -/
structure Closed (b : Bond) (A : Means) : Prop where
  /-- The host gives both the same answer, or they part. -/
  host : ∀ handle key w w', A.object (.host handle) → b.alike w w' →
    b.apart { w with log := w.log.push ⟨handle, .query, key⟩ }
        { w' with log := w'.log.push ⟨handle, .query, key⟩ } ∨
      w.answer w.log ⟨handle, .query, key⟩ = w'.answer w'.log ⟨handle, .query, key⟩ ∧
        b.alike { w with log := w.log.push ⟨handle, .query, key⟩ }
          { w' with log := w'.log.push ⟨handle, .query, key⟩ }
  draw : ∀ w w', A.operator .dice → b.alike w w' → w.generator = w'.generator ∧ w.state = w'.state ∧
    ∀ n, b.alike { w with state := n } { w' with state := n }
  name : ∀ w w' o, A.object o → b.alike w w' → w.free = w'.free ∧
    ∀ n, b.alike { w with free := n } { w' with free := n }
  openCache : ∀ w w', b.alike w w' → b.own w.caches.size ∧
    b.alike { w with caches := w.caches.push [] } { w' with caches := w'.caches.push [] }
  remember : ∀ w w' k k' key v, b.own k → b.alike w w' →
    b.alike { w with caches := w.caches.modify k ((key, v) :: ·) }
      { w' with caches := w'.caches.modify k' ((key, v) :: ·) }
  value_of_apart : ∀ w w', b.apart w w' → ∀ v, A.value v
  grow : ∀ w w' v v', b.apart w w' → w.log.toList <+: v.log.toList →
    w'.log.toList <+: v'.log.toList → b.apart v v'

/-! ### Caches -/

/-- To begin with there are no links. -/
theorem Linked.of_no_links (h : b.alike w w') : b.Linked A (fun _ _ => False) w w' :=
  ⟨h, fun _ _ h => h.elim, fun _ _ h => h.elim, fun _ _ _ _ h => h.elim⟩

theorem Linked.of_alike {v v' : World} (hw : b.Linked A links w w') (h : b.alike v v')
    (hv : v.caches = w.caches) (hv' : v'.caches = w'.caches) : b.Linked A links v v' :=
  ⟨h, hw.own, by rw [hv, hv']; exact hw.same, hw.single⟩

/-- One more cache on both sides, linked. -/
theorem Linked.push (hb : b.Closed A) (hw : b.Linked A links w w') :
    ∃ more, links ≤ more ∧ more w.caches.size w'.caches.size ∧
      b.Linked A more { w with caches := w.caches.push [] }
        { w' with caches := w'.caches.push [] } := by
  obtain ⟨hown, halike⟩ := hb.openCache w w' hw.alike
  have hlt : ∀ k k', links k k' → k < w.caches.size ∧ k' < w'.caches.size := by
    intro k k' hk
    obtain ⟨entries, h, h', -⟩ := hw.same k k' hk
    exact ⟨(Array.getElem?_eq_some_iff.1 h).1, (Array.getElem?_eq_some_iff.1 h').1⟩
  refine ⟨fun k k' => links k k' ∨ k = w.caches.size ∧ k' = w'.caches.size,
    fun k k' => .inl, .inr ⟨rfl, rfl⟩, halike, ?_, ?_, ?_⟩
  · rintro k k' (hk | ⟨rfl, -⟩)
    · exact hw.own k k' hk
    · exact hown
  · rintro k k' (hk | ⟨rfl, rfl⟩)
    · obtain ⟨entries, h, h', hvalue⟩ := hw.same k k' hk
      obtain ⟨hsize, hsize'⟩ := hlt k k' hk
      refine ⟨entries, ?_, ?_, hvalue⟩
      · rwa [Array.getElem?_push_lt hsize, ← Array.getElem?_eq_getElem hsize]
      · rwa [Array.getElem?_push_lt hsize', ← Array.getElem?_eq_getElem hsize']
    · exact ⟨[], by simp, by simp, fun _ hentry => nomatch hentry⟩
  · rintro k k' j j' (hk | ⟨rfl, rfl⟩) (hj | ⟨rfl, rfl⟩)
    · exact hw.single k k' j j' hk hj
    · have := hlt k k' hk
      omega
    · have := hlt j j' hj
      omega
    · simp

/-- The same value remembered on both sides. -/
theorem Linked.remember (hb : b.Closed A) (hw : b.Linked A links w w') {k k' : Nat} {key : String}
    {v : Value} (hk : links k k') (hv : A.value v) :
    b.Linked A links { w with caches := w.caches.modify k ((key, v) :: ·) }
      { w' with caches := w'.caches.modify k' ((key, v) :: ·) } := by
  refine ⟨hb.remember w w' k k' key v (hw.own k k' hk) hw.alike, hw.own, fun j j' hj => ?_,
    hw.single⟩
  obtain ⟨entries, h, h', hvalue⟩ := hw.same j j' hj
  have hiff := hw.single k k' j j' hk hj
  by_cases hkj : k = j
  · refine ⟨(key, v) :: entries, ?_, ?_, List.forall_mem_cons.2 ⟨hv, hvalue⟩⟩
    · simp [Array.getElem?_modify, hkj, h]
    · simp [Array.getElem?_modify, hiff.1 hkj, h']
  · refine ⟨entries, ?_, ?_, hvalue⟩
    · simp [Array.getElem?_modify, hkj, h]
    · simp [Array.getElem?_modify, mt hiff.2 hkj, h']

/-! ### Steps -/

namespace Together

theorem pure {a : α} (h : post a) : b.Together A links (Pure.pure a) (Pure.pure a) post :=
  fun _ _ hw => .ok le_rfl h hw

theorem fail {e : EvalError} : b.Together A links (throw e : Run α) (throw e) post :=
  fun _ _ hw => .error hw.alike

/-- Runs go together one after the other. Once the first ones have parted, the rest only
adds to the logs. -/
theorem bind (hb : b.Closed A) {f f' : α → Run β} (h : b.Together A links r r' post)
    (hf : ∀ a, post a → ∀ more, links ≤ more → b.Together A more (f a) (f' a) Q)
    (hgrow : (∀ v, A.value v) → ∀ a, post a → ∀ log,
      (Contract.logged log).Keeps (f a) Q ∧ (Contract.logged log).Keeps (f' a) Q) :
    b.Together A links (r >>= f) (r' >>= f') Q := by
  intro w w' hw
  have hagree := h w w' hw
  rw [Run.run_bind, Run.run_bind]
  revert hagree
  generalize r.run.run w = y
  generalize r'.run.run w' = y'
  rintro (⟨hle, ha, hw⟩ | hw | ⟨hx, hx', hw⟩)
  · exact (hf _ ha _ hle _ _ hw).mono hle
  · exact .error hw
  · have hgrow := hgrow (hb.value_of_apart _ _ hw)
    obtain ⟨hpost, hlog⟩ := Contract.next_logged (fun a ha log => (hgrow a ha log).1) hx _
    obtain ⟨hpost', hlog'⟩ := Contract.next_logged (fun a ha log => (hgrow a ha log).2) hx' _
    exact .apart hpost hpost' (hb.grow _ _ _ _ hw hlog hlog')

/-- A computation that cannot fail. -/
theorem lift {x x' : Always α} (h : ∀ w w', b.Linked A links w w' →
    ∃ a v v', x.run w = (a, v) ∧ x'.run w' = (a, v') ∧ post a ∧ b.Linked A links v v') :
    b.Together A links (liftM x : Run α) (liftM x') post := by
  intro w w' hw
  obtain ⟨a, v, v', hx, hx', ha, hv⟩ := h w w' hw
  show b.Agree A links post (.ok (x.run w).1, (x.run w).2) (.ok (x'.run w').1, (x'.run w').2)
  rw [hx, hx']
  exact .ok le_rfl ha hv

end Together

theorem Closed.together_roll (hb : b.Closed A) (hdice : A.operator .dice) (count faces : Int64) :
    b.Together A links (roll count faces) (roll count faces) fun _ => True := by
  intro w w' hw
  obtain ⟨hgenerator, hstate, halike⟩ := hb.draw w w' hdice hw.alike
  by_cases h : (count.toInt ≤ 0 || faces.toInt ≤ 0) = true
  · unfold roll
    rw [if_pos h]
    exact .ok le_rfl trivial hw
  · have hrolled : rollFrom w'.generator faces.toInt.toNat count.toInt.toNat w'.state 0 =
        rollFrom w.generator faces.toInt.toNat count.toInt.toNat w.state 0 := by
      rw [hgenerator, hstate]
    rw [run_roll h, run_roll h]
    simp only [hrolled]
    cases (rollFrom w.generator faces.toInt.toNat count.toInt.toNat w.state 0).1 with
    | none => exact .error (halike _)
    | some n => exact .ok le_rfl trivial (hw.of_alike (halike _) rfl rfl)

theorem Closed.together_newObject (hA : A.Closed) (hb : b.Closed A) {o : Object}
    (ho : A.object o) :
    b.Together A links (liftM (newObject o)) (liftM (newObject o)) A.value := by
  refine .lift fun w w' hw => ?_
  obtain ⟨hfree, halike⟩ := hb.name w w' o ho hw.alike
  refine ⟨_, _, _, rfl, ?_, (hA.reference w.free o).2 ho, hw.of_alike (halike (w.free + 1)) rfl rfl⟩
  rw [hfree]
  rfl

theorem Closed.together_newValue (hA : A.Closed) (hb : b.Closed A)
    {fields : List (String × Document)} (ho : A.object (.record fields)) (d : Document) :
    b.Together A links (liftM (newValue d)) (liftM (newValue d)) A.value := by
  refine .lift fun w w' hw => ?_
  obtain ⟨hfree, halike⟩ := hb.name w w' _ ho hw.alike
  refine ⟨_, _, _, rfl, ?_, hA.value_ofDocument ho w.free d, hw.of_alike (halike _) rfl rfl⟩
  rw [hfree]
  rfl

theorem Closed.together_askHost (hA : A.Closed) (hb : b.Closed A) {handle : Nat}
    (ho : A.object (.host handle)) (key : String) :
    b.Together A links (ExceptT.mk (askHost ⟨handle, .query, key⟩))
      (ExceptT.mk (askHost ⟨handle, .query, key⟩)) A.value := by
  intro w w' hw
  have hv (v : Value) : A.value v := hA.host handle v ho
  show b.Agree A links A.value (w.answer w.log ⟨handle, .query, key⟩, _)
    (w'.answer w'.log ⟨handle, .query, key⟩, _)
  rcases hb.host handle key w w' ho hw.alike with hapart | ⟨hanswer, halike⟩
  · exact .apart (fun _ _ => hv _) (fun _ _ => hv _) hapart
  · rw [hanswer]
    cases w'.answer w'.log ⟨handle, .query, key⟩ with
    | error e => exact .error halike
    | ok v => exact .ok le_rfl (hv v) (hw.of_alike halike rfl rfl)

end Bond

/-! ### Scopes -/

namespace Bond

variable {b : Bond} {A : Means} {links more : Links} {scope scope' : Scope}

theorem Binds.elements (h : b.Binds A links scope scope') {bindings : List (String × Value)}
    (hb : ∀ e ∈ bindings, A.value e.2) :
    b.Binds A links (.elements bindings scope) (.elements bindings scope') := by
  refine ⟨fun more hle n hn => ?_, fun hv log => Contract.answers_elements hb (h.first hv log),
    fun hv log => Contract.answers_elements hb (h.second hv log)⟩
  unfold Scope.query
  split
  · next v hv => exact .pure (hb _ (mem_of_lookup hv))
  · exact h.both more hle n hn

theorem keeps_remember {log : Array Lookup} (k : Nat) (n : String) (v : Value) (hv : A.value v) :
    (Contract.logged log).Keeps (do remember k n v; pure v) A.value := by
  have hremember : (Contract.logged log).Keeps (liftM (remember k n v) : Run Unit) fun _ => True :=
    .lift fun _ hw => ⟨trivial, hw⟩
  exact hremember.bind fun _ _ => .pure hv

/-- Linked caches give the same, and a clause that runs on both sides is remembered on both. -/
theorem Closed.together_clauses (hb : b.Closed A) {bindings bindings' : List (String × Run Value)}
    {k k' : Nat} {n : String} (hk : links k k')
    (hbound : ∀ clause, bindings.lookup n = some clause →
      ∃ clause', bindings'.lookup n = some clause' ∧ b.Together A links clause clause' A.value)
    (hfree : bindings.lookup n = none → bindings'.lookup n = none ∧
      b.Together A links (scope.query n) (scope'.query n) A.value) :
    b.Together A links ((Scope.clauses k bindings scope).query n)
      ((Scope.clauses k' bindings' scope').query n) A.value := by
  intro w w' hw
  obtain ⟨entries, hentries, hentries', hvalue⟩ := hw.same k k' hk
  have hcache : w.caches.getD k [] = entries := by simp [Array.getD_eq_getD_getElem?, hentries]
  have hcache' : w'.caches.getD k' [] = entries := by simp [Array.getD_eq_getD_getElem?, hentries']
  cases hlookup : entries.lookup n with
  | some v =>
    rw [Scope.query_of_remembered (hcache ▸ hlookup), Scope.query_of_remembered (hcache' ▸ hlookup)]
    exact .ok le_rfl (hvalue _ (mem_of_lookup hlookup)) hw
  | none =>
    have hempty : (w.caches.getD k []).lookup n = none := hcache ▸ hlookup
    have hempty' : (w'.caches.getD k' []).lookup n = none := hcache' ▸ hlookup
    cases hclause : bindings.lookup n with
    | none =>
      obtain ⟨hclause', htogether⟩ := hfree hclause
      rw [Scope.query_of_unbound hempty hclause, Scope.query_of_unbound hempty' hclause']
      exact htogether w w' hw
    | some clause =>
      obtain ⟨clause', hclause', htogether⟩ := hbound clause hclause
      have hagree := htogether w w' hw
      rw [Scope.query_of_forgotten hempty, Scope.query_of_forgotten hempty', hclause, hclause']
      simp only
      revert hagree
      generalize clause.run.run w = y
      generalize clause'.run.run w' = y'
      rintro (⟨hle, hv, hw⟩ | hw | ⟨hx, hx', hw⟩)
      · exact .ok hle hv (hw.remember hb (hle _ _ hk) hv)
      · exact .error hw
      · obtain ⟨hpost, hlog⟩ := Contract.next_logged (fun v hv _ => keeps_remember k n v hv) hx _
        obtain ⟨hpost', hlog'⟩ := Contract.next_logged (fun v hv _ => keeps_remember k' n v hv) hx' _
        exact .apart hpost hpost' (hb.grow _ _ _ _ hw hlog hlog')

theorem Binds.clauses (hA : A.Closed) (hb : b.Closed A) (hs : b.Binds A links scope scope')
    {bindings : List (String × Meaning)} {k k' : Nat} (hk : links k k')
    (hm : ∀ e ∈ bindings, Stepwise A e.2 A.value)
    (htogether : ∀ e ∈ bindings, ∀ more, links ≤ more →
      b.Together A more (e.2 scope) (e.2 scope') A.value) :
    b.Binds A links (.clauses k (bindings.map fun e => (e.1, e.2 scope)) scope)
      (.clauses k' (bindings.map fun e => (e.1, e.2 scope')) scope') := by
  have hlogged {scope : Scope} (hv : ∀ v, A.value v) (log : Array Lookup)
      (hs : (Contract.logged log).Answers A scope) (slot : Nat) :
      (Contract.logged log).Answers A
        (.clauses slot (bindings.map fun e => (e.1, e.2 scope)) scope) := by
    have hc := Contract.closed_logged hv log
    exact hc.answers_clauses trivial
      (List.forall_mem_map.2 fun e he => (hm e he).keeps hA hc scope hs) hs
  refine ⟨fun more hle n hn => ?_, fun hv log => hlogged hv log (hs.first hv log) k,
    fun hv log => hlogged hv log (hs.second hv log) k'⟩
  have hmap (scope : Scope) : (bindings.map fun e => (e.1, e.2 scope)).lookup n =
      (bindings.lookup n).map fun m => m scope := lookup_map (fun m : Meaning => m scope) bindings n
  refine hb.together_clauses (hle _ _ hk) (fun clause hclause => ?_) fun hclause => ⟨?_, ?_⟩
  · rw [hmap, Option.map_eq_some_iff] at hclause
    obtain ⟨m, hm, rfl⟩ := hclause
    exact ⟨m scope', by rw [hmap, hm]; rfl, htogether _ (mem_of_lookup hm) more hle⟩
  · rw [hmap, Option.map_eq_none_iff] at hclause ⊢
    exact hclause
  · exact hs.both more hle n hn

end Bond

/-! ### Stepwise computations -/

/-- **What is made of steps that go together goes together.** -/
theorem Stepwise.together {b : Bond} {A : Means} {α : Type} {m : Scope → Run α} {post : α → Prop}
    (hA : A.Closed) (hb : b.Closed A) (h : Stepwise A m post) :
    ∀ links scope scope', b.Binds A links scope scope' →
      b.Together A links (m scope) (m scope') post := by
  induction h with
  | pure h => exact fun _ _ _ _ => .pure h
  | fail => exact fun _ _ _ _ => .fail
  | bind _ hf ih ihf =>
    intro links scope scope' hs
    refine (ih links scope scope' hs).bind hb
      (fun a ha more hle => ihf a ha more scope scope' (hs.mono hle)) fun hv a ha log => ?_
    have hc := Contract.closed_logged hv log
    exact ⟨(hf a ha).keeps hA hc scope (hs.first hv log),
      (hf a ha).keeps hA hc scope' (hs.second hv log)⟩
  | name hn => exact fun links _ _ hs => hs.both links le_rfl _ hn
  | roll hdice => exact fun _ _ _ _ => hb.together_roll hdice _ _
  | object ho => exact fun _ _ _ _ => hb.together_newObject hA ho
  | document ho => exact fun _ _ _ _ => hb.together_newValue hA ho _
  | ask ho => exact fun _ _ _ _ => hb.together_askHost hA ho _
  | inside ho _ iho ih =>
    intro links scope scope' hs
    have hlogged (hv : ∀ v, A.value v) (log : Array Lookup) :
        (Contract.logged log).Answers A (.object _) := fun n =>
      (ho n).keeps hA (Contract.closed_logged hv log) scope (hs.first hv log)
    exact ih links _ _ ⟨fun more hle n _ => iho n more scope scope' (hs.mono hle), hlogged, hlogged⟩
  | elements hb' _ ih => exact fun links _ _ hs => ih links _ _ (hs.elements hb')
  | clauses hm _ ihb ih =>
    intro links scope scope' hs w w' hw
    obtain ⟨more, hle, hslot, hw'⟩ := hw.push hb
    have hinner := (hs.mono hle).clauses hA hb hslot hm fun e he more' hle' =>
      ihb e he more' scope scope' (hs.mono (hle.trans hle'))
    exact (ih more _ _ hinner _ _ hw').mono hle

/-- So do the trees that are within the means. -/
theorem Expr.Within.together {b : Bond} {A : Means} (hA : A.Closed) (hb : b.Closed A) {e : Expr}
    (h : e.Within A.toVocabulary) {links : Links} {scope scope' : Scope}
    (hs : b.Binds A links scope scope') :
    b.Together A links (e.eval scope) (e.eval scope') A.value :=
  (h.stepwise hA).together hA hb links scope scope' hs

/-- An object that is asked in steps answers together with itself. -/
theorem Bond.Closed.binds_of_stepwise {b : Bond} {A : Means} (hA : A.Closed) (hb : b.Closed A)
    (links : Links) {o : Object} (ho : ∀ n, Stepwise A (fun _ => o.query n) A.value) :
    b.Binds A links (.object o) (.object o) := by
  have hlogged (hv : ∀ v, A.value v) (log : Array Lookup) :
      (Contract.logged log).Answers A (.object o) :=
    (Contract.closed_logged hv log).answers_of_stepwise hA ho
  have hnothing (more : Links) : b.Binds A more (.object .nothing) (.object .nothing) :=
    ⟨fun _ _ _ _ => .pure (hA.integer 0), fun _ _ _ => .pure (hA.integer 0),
      fun _ _ _ => .pure (hA.integer 0)⟩
  exact ⟨fun more _ n _ => (ho n).together hA hb more _ _ (hnothing more), hlogged, hlogged⟩

theorem Bond.Closed.binds_object {b : Bond} {A : Means} (hA : A.Closed) (hb : b.Closed A)
    (links : Links) {o : Object} (ho : A.object o) : b.Binds A links (.object o) (.object o) :=
  hb.binds_of_stepwise hA links (Stepwise.query hA ho)

end Formulary
