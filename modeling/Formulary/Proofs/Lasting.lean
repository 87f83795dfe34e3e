import Formulary.Proofs.InStep
import Formulary.Proofs.Introspection
import Formulary.Proofs.Substitution

/-! Scopes that last.

A scope is steady if nothing in it changes but what its layers remember: the objects in it have
identities that are taken, and what a layer may still have to run is written in a vocabulary.
Evaluation leaves a steady scope behind as one, and comes to values whose identities are taken
by then, dice or not (`Scope.Steady.eval`). That is shown by a run beside itself, in which an
identity goes with itself alone. -/
namespace Formulary

/-! ### Steady scopes -/

/-- A layer that remembers known values of names that it binds. What else it may be asked for
are clauses that are written in the vocabulary. -/
structure World.Serves (V : Vocabulary) (hosts : Nat → Prop) (w : World) (slot : Nat)
    (bindings : List (String × Expr)) : Prop where
  size : slot < w.caches.size
  entries : ∀ entry ∈ w.caches.getD slot [],
    entry.1 ∈ Keyed.keys bindings ∧ entry.2.Known hosts w.free
  clauses : ∀ n e, V.name n → bindings.lookup n = some e → w.Recalls slot n ∨ e.Within V

/-- A scope that changes by what its layers remember only: all objects in it are known. -/
inductive Scope.Steady (V : Vocabulary) (hosts : Nat → Prop) (w : World) : Scope → Prop where
  | object {o : Object} (h : o.Known hosts w.free) : Scope.Steady V hosts w (.object o)
  | elements {bindings : List (String × Value)} {outer : Scope}
      (hb : ∀ b ∈ bindings, b.2.Known hosts w.free) (h : outer.Steady V hosts w) :
      Scope.Steady V hosts w (.elements bindings outer)
  | outcomes {found : List (String × Except EvalError Value)} {outer : Scope}
      (hf : ∀ n v, V.name n → found.lookup n = some (.ok v) → v.Known hosts w.free)
      (h : outer.Steady V hosts w) :
      Scope.Steady V hosts w (.definitions (found.map fun b => (b.1, Run.ofExcept b.2)) outer)
  | layer {slot : Nat} {bindings : List (String × Expr)} {outer : Scope}
      (hlayer : w.Serves V hosts slot bindings) (hslot : slot ∉ outer.layers.map Prod.fst)
      (h : outer.Steady V hosts w) : Scope.Steady V hosts w (.layer slot bindings outer)

/-- The vocabulary with all operators, dice too. -/
def Vocabulary.rolling (V : Vocabulary) : Vocabulary := { V with operator := fun _ => True }

section
variable {V : Vocabulary} {hosts : Nat → Prop} {w w' : World} {scope : Scope} {limit : Nat}

theorem Expr.Within.rolling {e : Expr} (h : e.Within V) : e.Within V.rolling :=
  h.mono (fun _ => id) (fun _ _ => trivial) fun _ _ => id

theorem World.Serves.mono {slot : Nat} {bindings : List (String × Expr)}
    (h : w.Serves V hosts slot bindings) (hle : w.free ≤ limit) :
    World.Serves V hosts { w with free := limit } slot bindings :=
  { h with entries := fun entry hentry => (h.entries entry hentry).imp_right (·.mono hle) }

theorem World.Steadfast.mono (h : w.Steadfast V hosts) (hanswer : w'.answer = w.answer)
    (hle : w.free ≤ w'.free) : w'.Steadfast V hosts where
  same handle key log hhandle hkey := by
    rw [hanswer, h.same handle key log hhandle hkey, h.same handle key w'.log hhandle hkey]
  known handle key v hhandle hkey hv := by
    rw [hanswer, h.same handle key w'.log hhandle hkey] at hv
    exact (h.known handle key v hhandle hkey hv).mono hle

theorem Scope.Steady.rolling (h : scope.Steady V hosts w) : scope.Steady V.rolling hosts w := by
  induction h with
  | object h => exact .object h
  | elements hb _ ih => exact .elements hb ih
  | outcomes hf _ ih => exact .outcomes hf ih
  | layer hlayer hslot _ ih =>
    exact .layer { hlayer with clauses := fun n e hn he =>
      (hlayer.clauses n e hn he).imp_right Expr.Within.rolling } hslot ih

/-- What the layers of a steady scope remember. -/
theorem Scope.Steady.caches (h : scope.Steady V hosts w) :
    ∀ l ∈ scope.layers, ∃ entries, w.caches[l.1]? = some entries ∧
      ∀ entry ∈ entries, entry.1 ∈ l.2 ∧ entry.2.Known hosts w.free := by
  induction h with
  | object => exact List.forall_mem_nil _
  | elements _ _ ih | outcomes _ _ ih => exact ih
  | @layer slot bindings outer hlayer _ _ ih =>
    refine List.forall_mem_cons.2 ⟨⟨w.caches.getD slot [], ?_, ?_⟩, ih⟩
    · rw [Array.getD_eq_getD_getElem?, Array.getElem?_eq_getElem hlayer.size]
      rfl
    · rw [keys_clauseRuns]
      exact hlayer.entries

theorem Scope.Steady.remembersBound (h : scope.Steady V hosts w) : w.RemembersBound scope := by
  intro l hl
  obtain ⟨entries, hentries, hknown⟩ := h.caches l hl
  refine ⟨entries, hentries, fun n hn => ?_⟩
  obtain ⟨entry, hentry, rfl⟩ := List.mem_map.1 hn
  exact (hknown entry hentry).1

/-- A scope stays steady if more identities are taken, and its layers remember more values of
the kind. -/
theorem Scope.Steady.later (h : scope.Steady V hosts w) (hle : w.free ≤ w'.free)
    (hkept : ∀ k n, w.Recalls k n → w'.Recalls k n)
    (hcaches : ∀ l ∈ scope.layers, ∃ entries, w'.caches[l.1]? = some entries ∧
      ∀ entry ∈ entries, entry.1 ∈ l.2 ∧ entry.2.Known hosts w'.free) :
    scope.Steady V hosts w' := by
  induction h with
  | object h => exact .object (h.mono hle)
  | elements hb _ ih => exact .elements (fun b hmem => (hb b hmem).mono hle) (ih hcaches)
  | outcomes hf _ ih =>
    exact .outcomes (fun n v hn hv => (hf n v hn hv).mono hle) (ih hcaches)
  | layer hlayer hslot _ ih =>
    obtain ⟨⟨entries, hentries, hknown⟩, houter⟩ := List.forall_mem_cons.1 hcaches
    rw [keys_clauseRuns] at hknown
    refine .layer { size := ?_, entries := ?_, clauses := fun n e hn he => ?_ } hslot (ih houter)
    · exact (Array.getElem?_eq_some_iff.1 hentries).1
    · rw [getD_of_getElem? hentries]
      exact hknown
    · exact (hlayer.clauses n e hn he).imp_left (hkept _ _)

/-- More identities are known later. -/
theorem Scope.Steady.mono (h : scope.Steady V hosts w) (hle : w.free ≤ limit) :
    scope.Steady V hosts { w with free := limit } := by
  refine h.later hle (fun _ _ => id) fun l hl => ?_
  obtain ⟨entries, hentries, hknown⟩ := h.caches l hl
  exact ⟨entries, hentries, fun entry hentry => (hknown entry hentry).imp_right (·.mono hle)⟩

end

theorem biUnique_below (n : Nat) : Relator.BiUnique (Names.below n) :=
  ⟨fun _ _ _ hi hj => hi.1.trans hj.1.symm, fun _ _ _ hi hj => hi.1.symm.trans hj.1⟩

/-! ### Steady scopes on both sides -/

namespace Pact

variable {p : Pact} {now : Pairing} {w w' : World} {V : Vocabulary} {hosts : Nat → Prop}
  {scope outer s s' : Scope}

/-- In the beginning only what is known goes together. -/
theorem paired_known (hanswer : w.answer = p.start.answer) (hanswer' : w'.answer = p.start.answer)
    (hfree : p.start.free ≤ w.free) (hfree' : p.start.free ≤ w'.free)
    (hkept : ∀ k n, p.start.Recalls k n → w.Recalls k n)
    (hholds : p.holds (.below p.start.free) w w') :
    p.Paired ⟨Names.below p.start.free, fun _ _ => False⟩ w w' where
  answer := hanswer
  answer' := hanswer'
  known := le_rfl
  bounded _ _ hi := ⟨hi.2.trans_le hfree, (hi.1 ▸ hi.2).trans_le hfree'⟩
  single := biUnique_below _
  kept := hkept
  own _ _ h := h.elim
  same _ _ h := h.elim
  linked := ⟨fun _ _ _ h => h.elim, fun _ _ _ h => h.elim⟩
  holds := hholds

theorem Binds.outcomes (hs : p.Binds now s s') {found : List (String × Except EvalError Value)}
    (hf : ∀ n v, p.name n → found.lookup n = some (.ok v) → v.Known p.hosts p.start.free)
    (hknown : Names.below p.start.free ≤ now.names) :
    p.Binds now (.definitions (found.map fun b => (b.1, Run.ofExcept b.2)) s)
      (.definitions (found.map fun b => (b.1, Run.ofExcept b.2)) s') := by
  intro later hle n hn
  rw [query_definitions, query_definitions]
  cases hlookup : found.lookup n with
  | none => exact hs later hle n hn
  | some x =>
    refine .ofExcept ?_
    cases x with
    | error e => exact .error e
    | ok v => exact .ok (Value.Alike.mono (hknown.trans hle.1) (hf n v hn hlookup))

/-- A layer with paired caches over scopes that answer alike. -/
theorem Binds.layer (hp : p.Closed) (hs : p.Binds now s s') {k k' : Nat} (hk : now.caches k k')
    {bindings : List (String × Expr)} (hclauses : ∀ n e, p.name n → bindings.lookup n = some e →
      p.start.Recalls k n ∨ e.Within p.toVocabulary) :
    p.Binds now (.layer k bindings s) (.layer k' bindings s') := by
  have hbound (n : String) (m : Meaning) (hn : p.name n)
      (hm : (bindings.map fun b => (b.1, b.2.eval)).lookup n = some m) :
      p.start.Recalls k n ∨ p.Conducts m := by
    rw [lookup_map, Option.map_eq_some_iff] at hm
    obtain ⟨e, he, rfl⟩ := hm
    exact (hclauses n e hn he).imp_right hp.conducts
  have hbinds := hs.clauses hp hk hbound
  simp only [List.map_map, Function.comp_def, ← Expr.clauseRuns_eq_map] at hbinds
  exact hbinds

/-- A steady scope whose caches are paired with themselves is alike on both sides. -/
theorem Closed.binds_steady (hp : p.Closed)
    (hscope : scope.Steady p.toVocabulary p.hosts p.start)
    (hlinks : ∀ l ∈ scope.layers, now.caches l.1 l.1)
    (hknown : Names.below p.start.free ≤ now.names) : p.Binds now scope scope := by
  induction hscope with
  | object h => exact hp.binds_object (Object.Alike.mono hknown h)
  | elements hb _ ih => exact (ih hlinks).elements ((entriesAlike_of_known hb).mono hknown)
  | outcomes hf _ ih => exact (ih hlinks).outcomes hf hknown
  | layer hlayer _ _ ih =>
    obtain ⟨hlink, hlinks⟩ := List.forall_mem_cons.1 hlinks
    exact (ih hlinks).layer hp hlink hlayer.clauses

theorem Closed.binds_flat (hp : p.Closed) (hscope : scope.Steady p.toVocabulary p.hosts p.start)
    (hflat : scope.layers = []) (hknown : Names.below p.start.free ≤ now.names) :
    p.Binds now scope scope := by
  refine hp.binds_steady hscope ?_ hknown
  rw [hflat]
  exact List.forall_mem_nil _

/-! ### A run beside itself -/

/-- Both runs start in the same world and draw the same numbers. -/
def alone (V : Vocabulary) (hosts : Nat → Prop) (start : World) : Pact where
  toVocabulary := V.rolling
  hosts
  start
  own _ := True
  holds _ w w' := w.generator = w'.generator ∧ w.state = w'.state

theorem closed_alone (hhost : w.Steadfast V hosts) : (Pact.alone V hosts w).Closed where
  draw _ _ _ _ h := ⟨h.1, h.2, fun _ => ⟨h.1, rfl⟩⟩
  host := ⟨hhost.same, hhost.known⟩
  ask _ _ _ _ h := h
  allocate _ _ _ _ h := h.holds
  openCache _ _ _ h := ⟨trivial, h⟩
  remember _ _ _ _ _ _ _ _ _ h := h

/-- The layers of the scope are paired with themselves. -/
theorem paired_alone (hscope : scope.Steady V hosts w) :
    (Pact.alone V hosts w).Paired
      ⟨Names.below w.free, fun k k' => k = k' ∧ k ∈ scope.layers.map Prod.fst⟩ w w := by
  refine
    { paired_known (p := Pact.alone V hosts w) rfl rfl le_rfl le_rfl (fun _ _ => id) ⟨rfl, rfl⟩ with
      own := fun _ _ _ => trivial
      same := ?_
      linked := ⟨fun _ _ _ hi hj => hi.1.trans hj.1.symm, fun _ _ _ hi hj => hi.1.symm.trans hj.1⟩ }
  rintro k _ ⟨rfl, hk⟩
  obtain ⟨l, hl, rfl⟩ := List.mem_map.1 hk
  obtain ⟨entries, hentries, hknown⟩ := hscope.caches l hl
  exact ⟨entries, entries, hentries, hentries,
    entriesAlike_of_known fun entry hentry => (hknown entry hentry).2⟩

end Pact

/-! ### What evaluation leaves behind -/

section
variable {V : Vocabulary} {hosts : Nat → Prop} {w : World} {scope : Scope} {e : Expr}

/-- **Evaluation in a steady scope leaves it steady.** The identities in the value that it comes
to are taken by then, and so are those in what the layers of the scope remember. -/
theorem Scope.Steady.eval (hscope : scope.Steady V hosts w) (hstacked : scope.Stacked)
    (hhost : w.Steadfast V hosts) (he : e.Within V.rolling) {x : Except EvalError Value}
    {w' : World} (hrun : (e.eval scope).run.run w = (x, w')) :
    scope.Steady V hosts w' ∧ w'.Steadfast V hosts ∧ ∀ v, x = .ok v → v.Known hosts w'.free := by
  have hp : (Pact.alone V hosts w).Closed := Pact.closed_alone hhost
  have hbound : w'.RemembersBound scope := by
    have hkeeps := (Expr.stepwise e).keeps Means.closed_all (Contract.closed_boundOnly scope) scope
      (Contract.answers_boundOnly hstacked hstacked List.suffix_rfl)
    have hafter := hkeeps.world_after (fun _ _ => id) hscope.remembersBound
    rwa [hrun] at hafter
  have hafter {later : Pairing} (hlinks : ∀ l ∈ scope.layers, later.caches l.1 l.1)
      (hw' : (Pact.alone V hosts w).Paired later w' w') :
      scope.Steady V hosts w' ∧ w'.Steadfast V hosts := by
    refine ⟨hscope.later hw'.free_le hw'.kept fun l hl => ?_, hhost.mono hw'.answer hw'.free_le⟩
    obtain ⟨_, entries, -, hentries, hsame⟩ := hw'.same _ _ (hlinks l hl)
    obtain ⟨entries', hentries', hkeys⟩ := hbound l hl
    obtain rfl := Option.some.inj (hentries.symm.trans hentries')
    refine ⟨entries, hentries, fun entry hentry => ⟨hkeys _ (List.mem_map_of_mem hentry), ?_⟩⟩
    exact hsame.known_of_mem (fun i i' hi => (hw'.bounded i i' hi).2) entry hentry
  have hlinks (l : Nat × List String) (hl : l ∈ scope.layers) :
      l.1 = l.1 ∧ l.1 ∈ scope.layers.map Prod.fst :=
    ⟨rfl, List.mem_map_of_mem hl⟩
  have hstart := Pact.paired_alone hscope
  have hstep := hp.conducts he _ _ _ (hp.binds_steady hscope.rolling hlinks le_rfl) w w hstart
  rw [hrun] at hstep
  cases hstep with
  | ok hle hv hw' =>
    obtain ⟨hsteady, hsteadfast⟩ := hafter (fun l hl => hle.2 _ _ (hlinks l hl)) hw'
    refine ⟨hsteady, hsteadfast, fun v hv' => ?_⟩
    cases hv'
    exact hv.known fun i i' hi => (hw'.bounded i i' hi).2
  | error hle hw' =>
    obtain ⟨hsteady, hsteadfast⟩ := hafter (fun l hl => hle.2 _ _ (hlinks l hl)) hw'
    exact ⟨hsteady, hsteadfast, nofun⟩

end

end Formulary
