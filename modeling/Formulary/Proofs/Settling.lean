import Formulary.Proofs.Lasting

/-! Clauses settled ahead of time.

A clause runs when it is first asked for, and what it comes to stands from then on. Without
dice that is the same as running it ahead of time, in the world that a scope is first used in
(`Scope.Steady.exists_settles`): later runs of it differ in the identities of the objects that
they make, and in nothing else. For this each clause is run ahead with identities that nothing
else uses, so that in the end each object that is made late goes with one that was made ahead. -/
namespace Formulary

/-! ### Runs from a later world -/

namespace Pact

variable {p : Pact} {now : Pairing} {w w' s : World} {V : Vocabulary} {hosts : Nat → Prop}

/-- What has happened since `since` on one side, and since the identity `first` was free on the
other. -/
structure Since (s since : World) (first : Nat) (names : Names) (w w' : World) : Prop where
  free : since.free ≤ w.free
  room : first ≤ w'.free
  size : since.caches.size ≤ w.caches.size
  caches : ∀ k < since.caches.size, w.caches[k]? = since.caches[k]?
  origin : ∀ i i', names i i' → Names.below s.free i i' ∨ since.free ≤ i ∧ first ≤ i'

/-- A run from the world `since` beside one from `s`, with identities from `first` on. -/
def since (V : Vocabulary) (hosts : Nat → Prop) (s since : World) (first : Nat) : Pact where
  toVocabulary := V
  hosts
  start := s
  own k := since.caches.size ≤ k
  holds := Since s since first

theorem closed_since (hdice : ¬ V.operator .dice) (hhost : s.Steadfast V hosts) (since : World)
    (first : Nat) : (Pact.since V hosts s since first).Closed where
  draw h := absurd h hdice
  host := hhost
  ask _ _ _ _ h := { h with }
  allocate now w w' count h := by
    have h := h.holds
    have hfree := h.free.trans (Nat.le_add_right w.free count)
    have hroom := h.room.trans (Nat.le_add_right w'.free count)
    refine { h with free := hfree, room := hroom, origin := ?_ }
    rintro i i' (hi | ⟨k, -, rfl, rfl⟩)
    · exact h.origin i i' hi
    · exact .inr ⟨h.free.trans (Nat.le_add_right _ _), h.room.trans (Nat.le_add_right _ _)⟩
  openCache names w w' h := by
    refine ⟨h.size, { h with size := ?_, caches := fun k hk => ?_ }⟩
    · show since.caches.size ≤ (w.caches.push []).size
      rw [Array.size_push]
      exact h.size.trans (Nat.le_succ _)
    · show (w.caches.push [])[k]? = _
      rw [Array.getElem?_push, if_neg (Nat.ne_of_lt (hk.trans_le h.size))]
      exact h.caches k hk
  remember names w w' k k' key v v' hk h := by
    refine { h with size := ?_, caches := fun l hl => ?_ }
    · show since.caches.size ≤ (w.caches.modify k _).size
      rw [Array.size_modify]
      exact h.size
    · show (w.caches.modify k _)[l]? = _
      rw [Array.getElem?_modify, if_neg (Nat.ne_of_gt (hl.trans_le hk))]
      exact h.caches l hl

theorem paired_since (since : World) {first : Nat} (hanswer : since.answer = s.answer)
    (hfree : s.free ≤ since.free) (hkept : ∀ k n, s.Recalls k n → since.Recalls k n)
    (hfirst : s.free ≤ first) :
    (Pact.since V hosts s since first).Paired ⟨Names.below s.free, fun _ _ => False⟩ since
      { s with free := first } :=
  paired_known hanswer rfl hfree hfirst hkept
    ⟨le_rfl, le_rfl, le_rfl, fun _ _ => rfl, fun _ _ => .inl⟩

end Pact

/-! ### A layer run ahead of time -/

/-- A layer of clauses, with the first identity for the run of each of them ahead of time. -/
structure Ahead where
  start : World
  slot : Nat
  bindings : List (String × Expr)
  outer : Scope
  first : String → Nat
  /-- All these runs use identities below the limit. -/
  limit : Nat

namespace Ahead

/-- The clause of a name, run with identities from `first` on. -/
def runFrom (start : World) (bindings : List (String × Expr)) (outer : Scope) (n : String)
    (first : Nat) : Except EvalError Value × World :=
  match bindings.lookup n with
  | some e => (e.eval outer).run.run { start with free := first }
  | none => (.ok .missing, { start with free := first })

variable (l : Ahead)

def foretold (n : String) : Except EvalError Value × World :=
  runFrom l.start l.bindings l.outer n (l.first n)

/-- The identity after those of the run. -/
def beyond (n : String) : Nat := (l.foretold n).2.free

/-- What a name stands for: a value that is remembered, or what its clause comes to. -/
def outcome (n : String) : Except EvalError Value :=
  match (l.start.caches.getD l.slot []).lookup n with
  | some v => .ok v
  | none => (l.foretold n).1

/-- The layer itself. -/
def waiting : Scope := .layer l.slot l.bindings l.outer

/-- The layer with all outcomes in place of the clauses. -/
def settled : Scope :=
  .definitions ((l.bindings.map fun b => (b.1, l.outcome b.1)).map fun b =>
    (b.1, Run.ofExcept b.2)) l.outer

/-- No identity is used in two of the runs. -/
structure Apart : Prop where
  room : l.start.free ≤ l.limit
  first : ∀ n ∈ Keyed.keys l.bindings, l.start.free ≤ l.first n
  beyond : ∀ n ∈ Keyed.keys l.bindings, l.beyond n ≤ l.limit
  apart : ∀ m ∈ Keyed.keys l.bindings, ∀ n ∈ Keyed.keys l.bindings, m ≠ n →
    l.beyond m ≤ l.first n ∨ l.beyond n ≤ l.first m

/-- The layer is of use, stands over a scope without layers, and its clauses can be run ahead. -/
structure Ready (V : Vocabulary) (hosts : Nat → Prop) : Prop extends l.Apart where
  dice : ¬ V.operator .dice
  host : l.start.Steadfast V hosts
  outer : l.outer.Steady V hosts l.start
  flat : l.outer.layers = []
  serves : l.start.Serves V hosts l.slot l.bindings

/-- Ranges that start at `base` or above it and do not overlap, where `beyond` says how far a
range reaches that starts somewhere. -/
theorem exists_ranges (base : Nat) (beyond : String → Nat → Nat) (names : List String) :
    ∃ (first : String → Nat) (limit : Nat), base ≤ limit ∧
      (∀ n ∈ names, base ≤ first n ∧ beyond n (first n) ≤ limit) ∧
      ∀ m ∈ names, ∀ n ∈ names, m ≠ n →
        beyond m (first m) ≤ first n ∨ beyond n (first n) ≤ first m := by
  induction names with
  | nil => exact ⟨fun _ => base, base, le_rfl, nofun, nofun⟩
  | cons name names ih =>
    obtain ⟨first, limit, hlimit, hrange, hapart⟩ := ih
    by_cases hname : name ∈ names
    · refine ⟨first, limit, hlimit, ?_, ?_⟩ <;> simp_all
    · let first' := Function.update first name limit
      have hnew : first' name = limit := Function.update_self _ _ _
      have hold (n : String) (hn : n ∈ names) : first' n = first n :=
        Function.update_of_ne (ne_of_mem_of_not_mem hn hname) _ _
      refine ⟨first', max limit (beyond name limit), hlimit.trans (le_max_left _ _), ?_, ?_⟩
      · refine List.forall_mem_cons.2 ⟨?_, fun n hn => ?_⟩
        · rw [hnew]
          exact ⟨hlimit, le_max_right _ _⟩
        · rw [hold n hn]
          exact ⟨(hrange n hn).1, (hrange n hn).2.trans (le_max_left _ _)⟩
      · -- The new range begins where all others end.
        simp only [List.mem_cons]
        rintro m (rfl | hm) n (rfl | hn) hne
        · exact absurd rfl hne
        · rw [hnew, hold n hn]
          exact .inr (hrange n hn).2
        · rw [hnew, hold m hm]
          exact .inl (hrange m hm).2
        · rw [hold m hm, hold n hn]
          exact hapart m hm n hn hne

theorem exists_apart (start : World) (slot : Nat) (bindings : List (String × Expr))
    (outer : Scope) :
    ∃ first limit, Apart ⟨start, slot, bindings, outer, first, limit⟩ := by
  obtain ⟨first, limit, hlimit, hrange, hapart⟩ := exists_ranges start.free
    (fun n k => (runFrom start bindings outer n k).2.free) (Keyed.keys bindings)
  exact ⟨first, limit, hlimit, fun n hn => (hrange n hn).1, fun n hn => (hrange n hn).2, hapart⟩

/-- What holds while the layer waits on one side and is settled on the other: what it
remembers is what it was foretold to come to, and of the identities that were used ahead only
those of clauses that have run go with any. -/
structure Holds (hosts : Nat → Prop) (names : Names) (w w' : World) : Prop where
  room : l.limit ≤ w'.free
  size : l.slot < w.caches.size
  remembered : ∀ n v, (w.caches.getD l.slot []).lookup n = some v →
    n ∈ Keyed.keys l.bindings ∧ ∃ v', l.outcome n = .ok v' ∧ v.Alike hosts names v'
  origin : ∀ i i', names i i' → i' < l.start.free ∨ l.limit ≤ i' ∨
    ∃ n, w.Recalls l.slot n ∧ l.first n ≤ i' ∧ i' < l.beyond n

/-- The layer waits on one side and is settled on the other. -/
def pact (V : Vocabulary) (hosts : Nat → Prop) : Pact where
  toVocabulary := V
  hosts
  start := l.start
  own k := k ≠ l.slot
  holds := l.Holds hosts

variable {l : Ahead} {V : Vocabulary} {hosts : Nat → Prop}

theorem closed_pact (hdice : ¬ V.operator .dice) (hhost : l.start.Steadfast V hosts) :
    (l.pact V hosts).Closed where
  draw h := absurd h hdice
  host := hhost
  ask _ _ _ _ h := { h with }
  allocate now w w' count h := by
    have h := h.holds
    refine { h with room := ?_, remembered := fun n v hn => ?_, origin := ?_ }
    · exact h.room.trans (Nat.le_add_right _ _)
    · obtain ⟨hbound, v', hv', halike⟩ := h.remembered n v hn
      exact ⟨hbound, v', hv', halike.mono fun _ _ => .inl⟩
    · rintro i i' (hi | ⟨k, -, rfl, rfl⟩)
      · exact h.origin i i' hi
      · exact .inr (.inl (h.room.trans (Nat.le_add_right _ _)))
  openCache names w w' h := by
    refine ⟨Nat.ne_of_gt h.size,
      { h with size := ?_, remembered := fun n v hn => ?_, origin := fun i i' hi => ?_ }⟩
    · show l.slot < (w.caches.push []).size
      rw [Array.size_push]
      exact h.size.trans (Nat.lt_succ_self _)
    · exact h.remembered n v (getD_push w.caches l.slot ▸ hn)
    · exact (h.origin i i' hi).imp_right (Or.imp_right fun ⟨n, hn, hrange⟩ => ⟨n, hn.push, hrange⟩)
  remember names w w' k k' key v v' hk h := by
    refine { h with size := ?_, remembered := fun n v hn => ?_, origin := fun i i' hi => ?_ }
    · show l.slot < (w.caches.modify k _).size
      rw [Array.size_modify]
      exact h.size
    · exact h.remembered n v (getD_modify_of_ne w.caches hk _ ▸ hn)
    · exact (h.origin i i' hi).imp_right
        (Or.imp_right fun ⟨n, hn, hrange⟩ => ⟨n, hn.remember k key v, hrange⟩)

theorem foretold_eq {n : String} {e : Expr} (he : l.bindings.lookup n = some e) :
    l.foretold n = (e.eval l.outer).run.run { l.start with free := l.first n } := by
  rw [foretold, runFrom, he]

theorem not_recalls_of_lookup {w : World} {slot : Nat} {n : String}
    (h : (w.caches.getD slot []).lookup n = none) : ¬ w.Recalls slot n := by
  rw [World.Recalls, ← Keyed.isSome_lookup_iff, h]
  exact Bool.false_ne_true

theorem outcome_of_forgotten {n : String} (h : ¬ l.start.Recalls l.slot n) :
    l.outcome n = (l.foretold n).1 := by
  have hnone : (l.start.caches.getD l.slot []).lookup n = none := by
    rw [← Option.not_isSome_iff_eq_none, Keyed.isSome_lookup_iff]
    exact h
  rw [outcome, hnone]

/-- A run of a clause in a later world goes as it was foretold. -/
theorem Ready.corresponds_foretold (h : l.Ready V hosts) {n : String} {e : Expr}
    (he : l.bindings.lookup n = some e) (hwithin : e.Within V) {w : World}
    (hanswer : w.answer = l.start.answer) (hfree : l.start.free ≤ w.free)
    (hkept : ∀ k m, l.start.Recalls k m → w.Recalls k m) :
    (Pact.since V hosts l.start w (l.first n)).Corresponds
      ⟨Names.below l.start.free, fun _ _ => False⟩ (Pact.since V hosts l.start w (l.first n)).alike
      ((e.eval l.outer).run.run w) (l.foretold n) := by
  have hfirst := h.first n (Keyed.mem_keys_iff.2 ⟨e, he⟩)
  have hp : (Pact.since V hosts l.start w (l.first n)).Closed :=
    Pact.closed_since h.dice h.host w (l.first n)
  rw [foretold_eq he]
  exact hp.conducts hwithin _ _ _ (hp.binds_flat h.outer h.flat le_rfl) _ _
    (Pact.paired_since w hanswer hfree hkept hfirst)

/-- What a name stands for is known when all clauses have run. -/
theorem Ready.known_outcome (h : l.Ready V hosts) {n : String} {e : Expr} (hn : V.name n)
    (he : l.bindings.lookup n = some e) {v : Value} (hv : l.outcome n = .ok v) :
    v.Known hosts l.limit := by
  cases hlookup : (l.start.caches.getD l.slot []).lookup n with
  | some u =>
    rw [outcome, hlookup] at hv
    cases hv
    exact (h.serves.entries _ (mem_of_lookup hlookup)).2.mono h.room
  | none =>
    have hforgotten := not_recalls_of_lookup hlookup
    have hwithin := (h.serves.clauses n e hn he).resolve_left hforgotten
    have hruns := h.corresponds_foretold he hwithin rfl le_rfl fun _ _ => id
    have hbeyond := h.beyond n (Keyed.mem_keys_iff.2 ⟨e, he⟩)
    rw [outcome_of_forgotten hforgotten] at hv
    rw [Ahead.beyond] at hbeyond
    generalize (e.eval l.outer).run.run l.start = y at hruns
    generalize l.foretold n = y' at hruns hv hbeyond
    cases hruns with
    | ok _ halike hmore =>
      cases hv
      exact halike.known fun i i' hi => (hmore.bounded i i' hi).2.trans_le hbeyond
    | error => cases hv

theorem Ready.paired_start (h : l.Ready V hosts) :
    (l.pact V hosts).Paired ⟨Names.below l.start.free, fun _ _ => False⟩ l.start
      { l.start with free := l.limit } := by
  refine Pact.paired_known rfl rfl le_rfl h.room (fun _ _ => id) ?_
  refine ⟨le_rfl, h.serves.size, fun n v hn => ?_, fun i i' hi => .inl (hi.1 ▸ hi.2)⟩
  obtain ⟨hbound, hv⟩ := h.serves.entries _ (mem_of_lookup hn)
  refine ⟨hbound, v, ?_, hv⟩
  rw [outcome, hn]

theorem Holds.bound {names : Names} {w w' : World} (h : l.Holds hosts names w w') {n : String}
    (hn : w.Recalls l.slot n) : n ∈ Keyed.keys l.bindings := by
  obtain ⟨v, hv⟩ := Option.isSome_iff_exists.1 (Keyed.isSome_lookup_iff.2 hn)
  exact (h.remembered n v hv).1

section
variable {now more : Pairing} {w w' w₂ z : World} {n : String}

/-- What a clause makes when it runs goes with what it made ahead of time. -/
theorem biUnique_names (hapart : l.Apart) (hw : (l.pact V hosts).Paired now w w')
    (hn : n ∈ Keyed.keys l.bindings) (hforgotten : ¬ w.Recalls l.slot n)
    (hmore : (Pact.since V hosts l.start w (l.first n)).Paired more w₂ z)
    (hz : z.free = l.beyond n) :
    Relator.BiUnique fun i i' => now.names i i' ∨ more.names i i' := by
  refine biUnique_or hw.single hmore.single fun i i' j j' hi hj => ?_
  -- A pair from before and one from the run are the same known identity, or differ on both sides.
  obtain hknown | ⟨hnew, hnew'⟩ := hmore.holds.origin j j' hj
  · obtain rfl := hknown.1
    exact Relator.rel_eq hw.single hi (hw.known _ _ hknown)
  · have hlt := (hw.bounded i i' hi).1
    have hbound := (hmore.bounded j j' hj).2
    refine iff_of_false (by omega) ?_
    rintro rfl
    obtain hold | hlimit | ⟨m, hm, hfirst, hbeyond⟩ := hw.holds.origin i i' hi
    · have := hapart.first n hn
      omega
    · have := hapart.beyond n hn
      omega
    · have hne : m ≠ n := fun heq => hforgotten (heq ▸ hm)
      have := hapart.apart m (hw.holds.bound hm) n hn hne
      omega

/-- After a run of a clause that fails, and leaves the caches alone that there were. -/
theorem paired_after_error (hw : (l.pact V hosts).Paired now w w')
    (hmore : (Pact.since V hosts l.start w (l.first n)).Paired more w₂ z) :
    (l.pact V hosts).Paired now w₂ w' := by
  have hcaches (k : Nat) (hk : k < w.caches.size) : w₂.caches[k]? = w.caches[k]? :=
    hmore.holds.caches k hk
  have hslot : w₂.caches.getD l.slot [] = w.caches.getD l.slot [] := by
    rw [Array.getD_eq_getD_getElem?, Array.getD_eq_getD_getElem?, hcaches _ hw.holds.size]
  refine
    { hw with
      answer := hmore.answer
      bounded := fun i i' hi => ?_
      kept := fun k n hn => hmore.kept k n hn
      same := fun k k' hk => ?_
      holds := { hw.holds with size := ?_, remembered := ?_, origin := ?_ } }
  · obtain ⟨hlt, hlt'⟩ := hw.bounded i i' hi
    exact ⟨hlt.trans_le hmore.holds.free, hlt'⟩
  · rw [hcaches k (hw.lt_size hk).1]
    exact hw.same k k' hk
  · exact hw.holds.size.trans_le hmore.holds.size
  · rw [hslot]
    exact hw.holds.remembered
  · intro i i' hi
    refine (hw.holds.origin i i' hi).imp_right (Or.imp_right fun ⟨m, hm, hrange⟩ => ⟨m, ?_, hrange⟩)
    rwa [World.Recalls, hslot]

/-- After a run of a clause that succeeds its value is remembered on one side. -/
theorem paired_after_ok (hapart : l.Apart) (hw : (l.pact V hosts).Paired now w w')
    (hn : n ∈ Keyed.keys l.bindings) (hforgotten : ¬ w.Recalls l.slot n)
    (hmore : (Pact.since V hosts l.start w (l.first n)).Paired more w₂ z)
    (hz : z.free = l.beyond n) {v v' : Value} (hv : v.Alike hosts more.names v')
    (hv' : l.outcome n = .ok v') :
    (l.pact V hosts).Paired ⟨fun i i' => now.names i i' ∨ more.names i i', now.caches⟩
      { w₂ with caches := w₂.caches.modify l.slot ((n, v) :: ·) } w' := by
  have hafter := paired_after_error hw hmore
  have hslot : (w₂.caches.modify l.slot ((n, v) :: ·)).getD l.slot [] =
      (n, v) :: w₂.caches.getD l.slot [] :=
    getD_modify_self hafter.holds.size _
  refine
    { hafter with
      known := hw.known.trans fun _ _ => .inl
      bounded := ?_
      single := biUnique_names hapart hw hn hforgotten hmore hz
      kept := fun k m hm => (hafter.kept k m hm).remember _ _ _
      same := fun k k' hk => ?_
      holds := { hafter.holds with size := ?_, remembered := fun m u hm => ?_, origin := ?_ } }
  · rintro i i' (hi | hi)
    · exact hafter.bounded i i' hi
    · obtain ⟨hlt, hlt'⟩ := hmore.bounded i i' hi
      exact ⟨hlt, (hlt'.trans_le (hz.le.trans (hapart.beyond n hn))).trans_le hw.holds.room⟩
  · obtain ⟨entries, entries', hentries, hentries', hsame⟩ := hafter.same k k' hk
    refine ⟨entries, entries', ?_, hentries', hsame.mono fun _ _ => .inl⟩
    show (w₂.caches.modify l.slot _)[k]? = some entries
    rwa [Array.getElem?_modify, if_neg (Ne.symm (hw.own k k' hk))]
  · show l.slot < (w₂.caches.modify l.slot _).size
    rw [Array.size_modify]
    exact hafter.holds.size
  · have hm : ((w₂.caches.modify l.slot ((n, v) :: ·)).getD l.slot []).lookup m = some u := hm
    rw [hslot, Keyed.lookup_cons] at hm
    split at hm
    · next heq =>
      cases hm
      exact ⟨heq ▸ hn, v', heq ▸ hv', hv.mono fun _ _ => .inr⟩
    · obtain ⟨hbound, u', hu', halike⟩ := hafter.holds.remembered m u hm
      exact ⟨hbound, u', hu', halike.mono fun _ _ => .inl⟩
  · rintro i i' (hi | hi)
    · exact (hafter.holds.origin i i' hi).imp_right
        (Or.imp_right fun ⟨m, hm, hrange⟩ => ⟨m, hm.remember _ _ _, hrange⟩)
    · obtain hknown | ⟨-, hfirst⟩ := hmore.holds.origin i i' hi
      · exact .inl (hknown.1 ▸ hknown.2)
      · refine .inr (.inr ⟨n, ?_, hfirst, hz ▸ (hmore.bounded i i' hi).2⟩)
        show n ∈ Keyed.keys ((w₂.caches.modify l.slot _).getD l.slot [])
        rw [hslot]
        exact List.mem_cons_self

/-- A clause of the layer that runs comes to what the layer is settled with. -/
theorem Ready.corresponds_clause (h : l.Ready V hosts) {e : Expr}
    (he : l.bindings.lookup n = some e) (hwithin : e.Within V)
    (hw : (l.pact V hosts).Paired now w w') (hforgotten : ¬ w.Recalls l.slot n) :
    (l.pact V hosts).Corresponds now (l.pact V hosts).alike
      (Run.next (fun v => do remember l.slot n v; pure v) ((e.eval l.outer).run.run w))
      (l.outcome n, w') := by
  have hn : n ∈ Keyed.keys l.bindings := Keyed.mem_keys_iff.2 ⟨e, he⟩
  have hruns := h.corresponds_foretold he hwithin hw.answer hw.free_le hw.kept
  have houtcome := outcome_of_forgotten fun hstart => hforgotten (hw.kept _ _ hstart)
  rw [houtcome]
  generalize (e.eval l.outer).run.run w = y at hruns
  generalize hz : l.foretold n = y' at hruns houtcome
  have hbeyond : y'.2.free = l.beyond n := by rw [beyond, hz]
  cases hruns with
  | @ok more _ _ _ _ _ hv hmore =>
    have hle : now ≤ ⟨fun i i' => now.names i i' ∨ more.names i i', now.caches⟩ :=
      ⟨fun _ _ => .inl, le_rfl⟩
    exact .ok hle (Value.Alike.mono (fun _ _ => .inr) hv)
      (paired_after_ok h.toApart hw hn hforgotten hmore hbeyond hv houtcome)
  | error _ hmore => exact .error le_rfl (paired_after_error hw hmore)

end

theorem lookup_outcomes_ahead (n : String) :
    (l.bindings.map fun b => (b.1, l.outcome b.1)).lookup n =
      (l.bindings.lookup n).map fun _ => l.outcome n := by
  induction l.bindings with
  | nil => rfl
  | cons b bindings ih =>
    rw [List.map_cons, Keyed.lookup_cons, ih, Keyed.lookup_cons]
    split
    · next heq => rw [heq]; rfl
    · rfl

/-- **A layer whose clauses run when they are asked for answers as one that is settled.** -/
theorem Ready.binds_settled (h : l.Ready V hosts) {now : Pairing}
    (hknown : Names.below l.start.free ≤ now.names) :
    (l.pact V hosts).Binds now l.waiting l.settled := by
  have hp : (l.pact V hosts).Closed := closed_pact h.dice h.host
  have houter := hp.binds_flat h.outer h.flat hknown
  intro later hle n hn w w' hw
  rw [waiting, Scope.layer, settled, query_definitions, lookup_outcomes_ahead]
  cases hlookup : (w.caches.getD l.slot []).lookup n with
  | some v =>
    obtain ⟨hbound, v', hv', hv⟩ := hw.holds.remembered n v hlookup
    obtain ⟨e, he⟩ := Keyed.mem_keys_iff.1 hbound
    rw [Scope.query_of_remembered hlookup, he]
    simp only [Option.map_some, hv']
    exact .ok le_rfl hv hw
  | none =>
    rw [Scope.query_of_forgotten hlookup, lookup_clauseRuns]
    cases he : l.bindings.lookup n with
    | none => exact houter later hle n hn w w' hw
    | some e =>
      have hforgotten := not_recalls_of_lookup hlookup
      have hwithin := (h.serves.clauses n e hn he).resolve_left
        fun hstart => hforgotten (hw.kept _ _ hstart)
      exact h.corresponds_clause he hwithin hw hforgotten

theorem Ready.steady_settled (h : l.Ready V hosts) :
    l.settled.Steady V hosts { l.start with free := l.limit } := by
  refine .outcomes (fun n v hn hv => ?_) (h.outer.mono h.room)
  rw [lookup_outcomes_ahead, Option.map_eq_some_iff] at hv
  obtain ⟨e, he, hv⟩ := hv
  exact h.known_outcome hn he hv

end Ahead

/-! ### Scopes settled layer by layer -/

namespace Pact

variable {p : Pact} {now : Pairing} {s s' : Scope}

/-- Caches that hold the same known values are paired. -/
theorem Paired.link {w w' : World} (h : p.Paired now w w') {k : Nat} (hown : p.own k)
    (hnew : ∀ j j', now.caches j j' → j ≠ k ∧ j' ≠ k)
    {entries : List (String × Value)} (hentries : w.caches[k]? = some entries)
    (hentries' : w'.caches[k]? = some entries)
    (hknown : ∀ entry ∈ entries, entry.2.Known p.hosts p.start.free) :
    p.Paired ⟨now.names, fun j j' => now.caches j j' ∨ j = k ∧ j' = k⟩ w w' := by
  refine
    { h with
      own := ?_
      same := ?_
      linked := biUnique_or h.linked (biUnique_pair k k) fun i i' j j' hi ⟨hj, hj'⟩ => ?_ }
  · rintro j j' (hj | ⟨rfl, -⟩)
    · exact h.own j j' hj
    · exact hown
  · rintro j j' (hj | ⟨rfl, rfl⟩)
    · exact h.same j j' hj
    · exact ⟨entries, entries, hentries, hentries', (entriesAlike_of_known hknown).mono h.known⟩
  · rw [hj, hj']
    exact iff_of_false (hnew i i' hi).1 (hnew i i' hi).2

end Pact

/-- The scopes differ in a layer that is settled in the second one. -/
structure Ahead.Settles (l : Ahead) (V : Vocabulary) (hosts : Nat → Prop) (now : Pairing)
    (scope scope' : Scope) : Prop where
  room : l.start.free ≤ l.limit
  steady : scope'.Steady V hosts { l.start with free := l.limit }
  slots : List.Sublist (scope'.layers.map Prod.fst) (scope.layers.map Prod.fst)
  fewer : scope'.layers.length < scope.layers.length
  slot : l.slot ∈ scope.layers.map Prod.fst
  caches : ∀ k k', now.caches k k' →
    k ∈ scope.layers.map Prod.fst ∧ k' ∈ scope.layers.map Prod.fst
  paired : (l.pact V hosts).Paired now l.start { l.start with free := l.limit }
  binds : (l.pact V hosts).Binds now scope scope'

/-- **A steady scope with layers answers as one in which the outermost is settled.** -/
theorem Scope.Steady.exists_settles {V : Vocabulary} {hosts : Nat → Prop} {w : World}
    {scope : Scope} (hdice : ¬ V.operator .dice) (hhost : w.Steadfast V hosts)
    (hscope : scope.Steady V hosts w) (hlayers : scope.layers ≠ []) :
    ∃ l now scope', l.start = w ∧ Ahead.Settles l V hosts now scope scope' := by
  induction hscope with
  | object => exact absurd rfl hlayers
  | @elements bindings outer hb _ ih =>
    obtain ⟨l, now, outer', rfl, h⟩ := ih hlayers
    have hbindings := (entriesAlike_of_known hb).mono h.paired.known
    exact ⟨l, now, .elements bindings outer', rfl,
      { h with
        steady := .elements (fun b hmem => (hb b hmem).mono h.room) h.steady
        binds := h.binds.elements hbindings }⟩
  | @outcomes found outer hf _ ih =>
    obtain ⟨l, now, outer', rfl, h⟩ := ih hlayers
    exact ⟨l, now, _, rfl,
      { h with
        steady := .outcomes (fun n v hn hv => (hf n v hn hv).mono h.room) h.steady
        binds := h.binds.outcomes hf h.paired.known }⟩
  | @layer slot bindings outer hlayer hslot houter ih =>
    by_cases hflat : outer.layers = []
    · obtain ⟨first, limit, hapart⟩ := Ahead.exists_apart w slot bindings outer
      have h : Ahead.Ready ⟨w, slot, bindings, outer, first, limit⟩ V hosts :=
        { hapart with dice := hdice, host := hhost, outer := houter, flat := hflat,
                      serves := hlayer }
      refine ⟨_, ⟨Names.below w.free, fun _ _ => False⟩, _, rfl,
        { room := h.room
          steady := h.steady_settled
          slots := ?_
          fewer := ?_
          slot := List.mem_cons_self
          caches := fun _ _ hk => hk.elim
          paired := h.paired_start
          binds := h.binds_settled le_rfl }⟩
      · exact List.sublist_cons_self _ _
      · exact Nat.lt_succ_self _
    · obtain ⟨l, now, outer', rfl, h⟩ := ih hflat
      have hp : (l.pact V hosts).Closed := Ahead.closed_pact hdice hhost
      have hne (k : Nat) (hk : k ∈ outer.layers.map Prod.fst) : k ≠ slot :=
        ne_of_mem_of_not_mem hk hslot
      have hentries : l.start.caches[slot]? = some (l.start.caches.getD slot []) := by
        rw [Array.getD_eq_getD_getElem?, Array.getElem?_eq_getElem hlayer.size]
        rfl
      have hpaired := h.paired.link (hne _ h.slot).symm
        (fun k k' hk => ⟨hne k (h.caches k k' hk).1, hne k' (h.caches k k' hk).2⟩) hentries hentries
        fun entry hentry => (hlayer.entries entry hentry).2
      have hle : now ≤ ⟨now.names, fun k k' => now.caches k k' ∨ k = slot ∧ k' = slot⟩ :=
        ⟨le_rfl, fun _ _ => .inl⟩
      refine ⟨l, _, .layer slot bindings outer', rfl,
        { room := h.room
          steady := .layer (hlayer.mono h.room) (fun hk => hslot (h.slots.mem hk)) h.steady
          slots := h.slots.cons_cons slot
          fewer := Nat.succ_lt_succ h.fewer
          slot := List.mem_cons_of_mem _ h.slot
          caches := ?_
          paired := hpaired
          binds := (h.binds.mono hle).layer hp (.inr ⟨rfl, rfl⟩) hlayer.clauses }⟩
      rintro k k' (hk | ⟨rfl, rfl⟩)
      · exact (h.caches k k' hk).imp (List.mem_cons_of_mem _) (List.mem_cons_of_mem _)
      · exact ⟨List.mem_cons_self, List.mem_cons_self⟩

end Formulary
