import Formulary.Proofs.Abreast
import Formulary.Proofs.Steady

/-! Scopes and operators in step.

Scopes that answer alike give alike values in paired worlds: objects are asked in step, a clause
runs on both sides and is remembered on both. Operators look at nothing in their operands that
could tell alike values from each other (`Value.Alike.binary_eq`), and what is only computed from
such operands comes to the same (`Stepwise.abreast`). -/
namespace Formulary

namespace Pact

variable {p : Pact} {now later : Pairing} {s s' : Scope} {n : String}

/-! ### Scopes -/

/-- From now on both scopes have alike answers. -/
def Binds (p : Pact) (now : Pairing) (s s' : Scope) : Prop :=
  ∀ later, now ≤ later → ∀ n, p.name n → p.Abreast later (s.query n) (s'.query n) p.alike

/-- In scopes with alike answers the meaning comes to alike values. -/
def Conducts (p : Pact) (m : Meaning) : Prop :=
  ∀ now s s', p.Binds now s s' → p.Abreast now (m s) (m s') p.alike

theorem Binds.mono (h : p.Binds now s s') (hle : now ≤ later) : p.Binds later s s' :=
  fun later' hle' => h later' (hle.trans hle')

theorem Closed.abreast_roll (hp : p.Closed) (hdice : p.operator .dice) (count faces : Int64) :
    p.Abreast now (roll count faces) (roll count faces) fun _ => Eq := by
  intro w w' hw
  obtain ⟨hgenerator, hstate, hholds⟩ := hp.draw hdice _ w w' hw.holds
  by_cases h : (count.toInt ≤ 0 || faces.toInt ≤ 0) = true
  · unfold roll
    rw [if_pos h]
    exact .ok le_rfl rfl hw
  · have hrolled : rollFrom w'.generator faces.toInt.toNat count.toInt.toNat w'.state 0 =
        rollFrom w.generator faces.toInt.toNat count.toInt.toNat w.state 0 := by
      rw [hgenerator, hstate]
    rw [run_roll h, run_roll h]
    simp only [hrolled]
    cases (rollFrom w.generator faces.toInt.toNat count.toInt.toNat w.state 0).1 with
    | none => exact .error le_rfl { hw with holds := hholds _ }
    | some n => exact .ok le_rfl rfl { hw with holds := hholds _ }

theorem Closed.abreast_newObject (hp : p.Closed) {o o' : Object}
    (ho : o.Alike p.hosts now.names o') :
    p.Abreast now (liftM (newObject o)) (liftM (newObject o')) p.alike := by
  refine .lift fun w w' hw => ⟨_, le_extend now w.free w'.free 1, ?_, hw.allocate hp 1⟩
  exact .object (.inr ⟨0, Nat.one_pos, rfl, rfl⟩) (ho.mono fun _ _ => .inl)

theorem Closed.abreast_newValue (hp : p.Closed) (d : Document) :
    p.Abreast now (liftM (newValue d)) (liftM (newValue d)) p.alike := by
  obtain ⟨count, hcount⟩ := Value.exists_count_ofDocument d
  refine .lift fun w w' hw => ⟨_, le_extend now w.free w'.free count, ?_, ?_⟩
  · exact (hcount w.free).2 _ _ w'.free fun k hk => .inr ⟨k, hk, rfl, rfl⟩
  · have hpaired := hw.allocate hp count
    rw [← (hcount w.free).1, ← (hcount w'.free).1] at hpaired
    exact hpaired

theorem Closed.abreast_askHost (hp : p.Closed) {handle : Nat} (hhandle : p.hosts handle)
    (hn : p.name n) :
    p.Abreast now (ExceptT.mk (askHost ⟨handle, .query, n⟩))
      (ExceptT.mk (askHost ⟨handle, .query, n⟩)) p.alike := by
  intro w w' hw
  have hpaired := hw.ask hp ⟨handle, .query, n⟩
  have hanswer : w.answer w.log ⟨handle, .query, n⟩ =
      p.start.answer p.start.log ⟨handle, .query, n⟩ := by
    rw [hw.answer, hp.host.same handle n w.log hhandle hn]
  have hanswer' : w'.answer w'.log ⟨handle, .query, n⟩ =
      p.start.answer p.start.log ⟨handle, .query, n⟩ := by
    rw [hw.answer', hp.host.same handle n w'.log hhandle hn]
  show p.Corresponds now p.alike (w.answer w.log ⟨handle, .query, n⟩, _)
    (w'.answer w'.log ⟨handle, .query, n⟩, _)
  rw [hanswer, hanswer']
  cases hstart : p.start.answer p.start.log ⟨handle, .query, n⟩ with
  | error e => exact .error le_rfl hpaired
  | ok v =>
    have hv := hp.host.known handle n v hhandle hn hstart
    exact .ok le_rfl (Value.Alike.mono hw.known hv) hpaired

/-- Alike objects are asked in step. -/
theorem Closed.abreast_query (hp : p.Closed) {o o' : Object} (ho : o.Alike p.hosts now.names o')
    (hn : p.name n) : p.Abreast now (o.query n) (o'.query n) p.alike := by
  cases ho with
  | nothing => exact .pure (.integer 0)
  | tile l =>
    refine .pure (?_ : p.alike now (l.get n) (l.get n))
    unfold Location.get
    split <;> exact .integer _
  | record fields =>
    show p.Abreast now (liftM ((Object.record fields).get n)) (liftM ((Object.record fields).get n))
      p.alike
    unfold Object.get
    split
    · exact hp.abreast_newValue _
    · exact .pure (.integer 0)
  | @layer entries entries' _ _ hentries hfallback =>
    have hfound := hentries.lookup n
    unfold Object.query
    generalize entries.lookup n = found at hfound ⊢
    generalize entries'.lookup n = found' at hfound ⊢
    cases hfound with
    | some hv => exact .pure hv
    | none => exact hp.abreast_query hfallback hn
  | host hhandle => exact hp.abreast_askHost hhandle hn

theorem Closed.binds_object (hp : p.Closed) {o o' : Object} (ho : o.Alike p.hosts now.names o') :
    p.Binds now (.object o) (.object o') :=
  fun _ hle _ hn => hp.abreast_query (ho.mono hle.1) hn

theorem Binds.elements (hs : p.Binds now s s') {bindings bindings' : List (String × Value)}
    (hb : EntriesAlike p.hosts now.names bindings bindings') :
    p.Binds now (.elements bindings s) (.elements bindings' s') := by
  intro later hle n hn
  have hfound := (hb.mono hle.1).lookup n
  unfold Scope.query
  generalize bindings.lookup n = found at hfound ⊢
  generalize bindings'.lookup n = found' at hfound ⊢
  cases hfound with
  | some hv => exact .pure hv
  | none => exact hs later hle n hn

/-- A layer of clauses with paired caches gives the same as before, and a clause that runs on
both sides is remembered on both. -/
theorem Closed.abreast_clauses (hp : p.Closed) {bindings bindings' : List (String × Run Value)}
    {k k' : Nat} (hk : now.caches k k')
    (hbound : p.start.Recalls k n ∨ Option.Rel (fun r r' => p.Abreast now r r' p.alike)
      (bindings.lookup n) (bindings'.lookup n))
    (hfree : bindings.lookup n = none → p.Abreast now (s.query n) (s'.query n) p.alike) :
    p.Abreast now ((Scope.clauses k bindings s).query n) ((Scope.clauses k' bindings' s').query n)
      p.alike := by
  intro w w' hw
  obtain ⟨entries, entries', hentries, hentries', hsame⟩ := hw.same k k' hk
  have hcache : w.caches.getD k [] = entries := by simp [Array.getD_eq_getD_getElem?, hentries]
  have hcache' : w'.caches.getD k' [] = entries' := by simp [Array.getD_eq_getD_getElem?, hentries']
  have hfound := hsame.lookup n
  rw [← hcache, ← hcache'] at hfound
  generalize hlookup : (w.caches.getD k []).lookup n = found at hfound
  generalize hlookup' : (w'.caches.getD k' []).lookup n = found' at hfound
  cases hfound with
  | some hv =>
    rw [Scope.query_of_remembered hlookup, Scope.query_of_remembered hlookup']
    exact .ok le_rfl hv hw
  | none =>
    have hforgotten : ¬ p.start.Recalls k n := by
      intro hn
      have hsome := Keyed.isSome_lookup_iff.2 (hw.kept k n hn)
      rw [hlookup] at hsome
      cases hsome
    have hclauses := hbound.resolve_left hforgotten
    rw [Scope.query_of_forgotten hlookup, Scope.query_of_forgotten hlookup']
    generalize hclause : bindings.lookup n = clause at hclauses
    generalize bindings'.lookup n = clause' at hclauses
    cases hclauses with
    | none => exact hfree hclause w w' hw
    | @some r r' hclauses =>
      have hruns := hclauses w w' hw
      simp only
      generalize r.run.run w = y at hruns ⊢
      generalize r'.run.run w' = y' at hruns ⊢
      cases hruns with
      | ok hle hv hw => exact .ok hle hv (hw.remember hp n (hle.2 _ _ hk) hv)
      | error hle hw => exact .error hle hw

theorem Binds.clauses (hp : p.Closed) (hs : p.Binds now s s') {bindings : List (String × Meaning)}
    {k k' : Nat} (hk : now.caches k k')
    (hm : ∀ n m, p.name n → bindings.lookup n = some m → p.start.Recalls k n ∨ p.Conducts m) :
    p.Binds now (.clauses k (bindings.map fun b => (b.1, b.2 s)) s)
      (.clauses k' (bindings.map fun b => (b.1, b.2 s')) s') := by
  intro later hle n hn
  refine hp.abreast_clauses (hle.2 _ _ hk) ?_ fun _ => hs later hle n hn
  rw [lookup_map (fun m : Meaning => m s), lookup_map (fun m : Meaning => m s')]
  cases hlookup : bindings.lookup n with
  | none => exact .inr .none
  | some m =>
    exact (hm n m hn hlookup).imp_right fun hm => .some (hm later s s' (hs.mono hle))

end Pact

/-! ### What only computes -/

/-- No names and no objects. -/
def Means.computing (operator : BinaryOp → Prop) : Means :=
  ⟨⟨fun _ => False, operator, fun _ _ => False⟩, Value.Plain, fun _ => False, fun _ => True⟩

theorem Means.closed_computing (operator : BinaryOp → Prop) :
    (Means.computing operator).Closed where
  integer := Value.Plain.integer
  text := Value.Plain.text
  list _ := ⟨fun (.list h) => h, Value.Plain.list⟩
  reference _ _ := ⟨fun h => (nomatch h), False.elim⟩
  tile _ h := h
  record _ _ h := h
  layer _ _ h := h.elim
  host _ _ h := h.elim
  fail _ _ := trivial
  count _ _ _ _ := trivial

theorem Value.Plain.alike {hosts : Nat → Prop} {names : Names} {v : Value} (h : v.Plain) :
    v.Alike hosts names v := by
  induction h with
  | integer n => exact .integer n
  | text s => exact .text s
  | list _ ih => exact .list (itemsAlike_iff.2 (List.forall₂_same.2 ih))

/-- What only computes comes to the same result, in whatever scopes. -/
theorem Stepwise.abreast {p : Pact} {α : Type} {m : Scope → Run α} {post : α → Prop}
    (hp : p.Closed) (h : Stepwise (.computing p.operator) m post) :
    ∀ now s s', p.Abreast now (m s) (m s') fun _ a a' => a = a' ∧ post a := by
  induction h with
  | pure h => exact fun _ _ _ => .pure ⟨rfl, h⟩
  | fail => exact fun _ _ _ => .fail
  | bind _ _ ih ihf =>
    intro now s s'
    refine (ih now s s').bind fun later _ a a' ⟨hsame, ha⟩ => ?_
    subst hsame
    exact ihf a ha later s s'
  | name h => exact h.elim
  | roll hdice =>
    exact fun _ _ _ => (hp.abreast_roll hdice _ _).mono fun _ _ _ _ hsame => ⟨hsame, trivial⟩
  | object h | document h | ask h => exact h.elim
  | inside _ _ _ ih => exact fun now _ _ => ih now _ _
  | elements _ _ ih => exact fun now _ _ => ih now _ _
  | clauses _ _ _ ih =>
    intro now s s' w w' hw
    obtain ⟨later, hle, -, hw'⟩ := hw.push hp
    exact (ih later _ _ _ _ hw').earlier hle

section
variable {p : Pact} {now : Pairing} {α : Type} {r : Run α} {post : α → Prop}

theorem Stepwise.abreast_same (hp : p.Closed)
    (h : Stepwise (.computing p.operator) (fun _ => r) post) : p.Abreast now r r fun _ => Eq :=
  (h.abreast hp now (.object .nothing) (.object .nothing)).mono fun _ _ _ _ => And.left

theorem Stepwise.abreast_value (hp : p.Closed) {r : Run Value}
    (h : Stepwise (.computing p.operator) (fun _ => r) Value.Plain) :
    p.Abreast now r r p.alike := by
  refine (h.abreast hp now (.object .nothing) (.object .nothing)).mono
    fun _ _ v _ ⟨hsame, hv⟩ => ?_
  exact hsame ▸ hv.alike

end

/-! ### Operators -/

namespace Value.Alike

variable {hosts : Nat → Prop} {names : Names} {a a' b b' : Value}

theorem unary_eq (op : UnaryOp) (ha : a.Alike hosts names a') : op.apply a = op.apply a' := by
  cases op with
  | not => rw [UnaryOp.apply, UnaryOp.apply, ha.truth_eq]
  | negate => rw [UnaryOp.apply, UnaryOp.apply, ha.asInteger_eq]

theorem binary_eq (op : BinaryOp) (hsingle : Relator.BiUnique names) (ha : a.Alike hosts names a')
    (hb : b.Alike hosts names b') : op.apply a b = op.apply a' b' := by
  have hoperands (op : BinaryOp) : op.operands a b = op.operands a' b' := by
    rw [BinaryOp.operands, BinaryOp.operands, ha.asInteger_eq, hb.asInteger_eq]
  cases op with
  | or | and => simp only [BinaryOp.apply, ha.truth_eq, hb.truth_eq]
  | equal | notEqual => simp only [BinaryOp.apply, ha.equals_eq hsingle hb]
  | less | greater | lessEqual | greaterEqual =>
    simp only [BinaryOp.apply, BinaryOp.comparison, ha.order_eq hb]
  | add | subtract | multiply => simp only [BinaryOp.apply, BinaryOp.arithmetic, hoperands]
  | divide | modulo => simp only [BinaryOp.apply, BinaryOp.division, hoperands]
  | power | dice => simp only [BinaryOp.apply, hoperands]

end Value.Alike

namespace Pact

open Builtin

variable {p : Pact} {now later : Pairing} {s s' : Scope} {m : Meaning} {v v' a a' b b' : Value}
  {items items' : List Value}

theorem alike_mono (now later : Pairing) (v v' : Value) (hle : now ≤ later)
    (h : p.alike now v v') : p.alike later v v' :=
  h.mono hle.1

theorem Closed.abreast_unary (hp : p.Closed) (op : UnaryOp) (hv : p.alike now v v') :
    p.Abreast now (op.apply v) (op.apply v') p.alike := by
  rw [hv.unary_eq]
  exact ((Means.closed_computing _).unary op v').abreast_value hp

theorem Closed.abreast_binary (hp : p.Closed) (op : BinaryOp) (hop : p.operator op)
    (ha : p.alike now a a') (hb : p.alike now b b') :
    p.Abreast now (op.apply a b) (op.apply a' b') p.alike := by
  intro w w' hw
  rw [Value.Alike.binary_eq op hw.single ha hb]
  exact ((Means.closed_computing _).binary op hop a' b').abreast_value hp w w' hw

theorem Conducts.selectMember (hp : p.Closed) (hm : p.Conducts m) (hv : p.alike now v v')
    (hs : p.Binds now s s') :
    p.Abreast now (Formulary.selectMember v m s) (Formulary.selectMember v' m s') p.alike := by
  cases hv with
  | integer | text => exact .fail
  | @list items items' hitems =>
    refine (hm now s s' hs).bind fun later hle k k' hk => ?_
    refine (Abreast.ofEq (hk.asInteger_eq _)).bind fun later' hle' i _ hi => ?_
    subst hi
    have hlist : p.alike later' (.list items) (.list items') :=
      .list (hitems.mono (hle.trans hle').1)
    exact .ofExcept (hlist.element i)
  | object _ ho => exact hm now _ _ (hp.binds_object ho)

/-! ### Arguments -/

namespace Conducts

variable (hm : p.Conducts m)
include hm

theorem integerArgument (f : Builtin) (hs : p.Binds now s s') :
    p.Abreast now (f.integerArgument m s) (f.integerArgument m s') fun _ => Eq :=
  (hm now s s' hs).bind fun _ _ _ _ hv => .ofEq (hv.asInteger_eq _)

theorem listArgument (f : Builtin) (hs : p.Binds now s s') :
    p.Abreast now (f.listArgument m s) (f.listArgument m s') p.alikeItems :=
  (hm now s s' hs).bind fun _ _ _ _ hv => .ofExcept (hv.asList _)

theorem locationArgument (hs : p.Binds now s s') :
    p.Abreast now (Builtin.locationArgument m s) (Builtin.locationArgument m s') fun _ => Eq := by
  refine (hm now s s' hs).bind fun later _ v v' hv => ?_
  cases hv with
  | integer | text | list => exact .fail
  | object _ ho =>
    cases ho with
    | tile l => exact .pure rfl
    | nothing | record | layer | host => exact .fail

theorem forElement (hp : p.Closed) (hv : p.alike now v v') (hs : p.Binds now s s') :
    p.Abreast now (Builtin.forElement m s v) (Builtin.forElement m s' v') p.alike := by
  have hvalue (hv : p.alike now v v') :
      p.Abreast now (m (s.element v)) (m (s'.element v')) p.alike :=
    hm now _ _ (hs.elements (.cons hv .nil))
  cases hv with
  | integer n => exact hvalue (.integer n)
  | text t => exact hvalue (.text t)
  | list h => exact hvalue (.list h)
  | object _ ho => exact hm now _ _ (hp.binds_object ho)

theorem holdsFor (hp : p.Closed) (hv : p.alike now v v') (hs : p.Binds now s s') :
    p.Abreast now (Builtin.holdsFor m s v) (Builtin.holdsFor m s' v') fun _ => Eq :=
  (hm.forElement hp hv hs).bind fun _ _ _ _ hb => .ofEq hb.truth_eq

theorem precedesBy (ha : p.alike now a a') (hb : p.alike now b b') (hs : p.Binds now s s') :
    p.Abreast now (Builtin.precedesBy m s a b) (Builtin.precedesBy m s' a' b') fun _ => Eq :=
  (hm now _ _ (hs.elements (.cons ha (.cons hb .nil)))).bind fun _ _ _ _ hv =>
    .ofEq hv.truth_eq

end Conducts

theorem integerArguments (f : Builtin) {arguments : List Meaning}
    (h : ∀ m ∈ arguments, p.Conducts m) (hs : p.Binds now s s') :
    p.Abreast now (arguments.mapM fun m => f.integerArgument m s)
      (arguments.mapM fun m => f.integerArgument m s') fun _ => Eq := by
  have hnumbers : p.Abreast now (arguments.mapM fun m => f.integerArgument m s)
      (arguments.mapM fun m => f.integerArgument m s') fun _ => List.Forall₂ Eq := by
    refine .mapM (fun _ _ _ _ _ => id) (Abreast.forall₂_self h)
      fun later hle m _ ⟨hsame, hm⟩ => ?_
    subst hsame
    exact hm.integerArgument f (hs.mono hle)
  exact hnumbers.mono fun _ _ _ _ => List.forall₂_eq_eq_eq ▸ id

end Pact

end Formulary
