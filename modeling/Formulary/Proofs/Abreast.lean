import Formulary.Proofs.Alike
import Formulary.Proofs.Bond
import Formulary.Proofs.Merging

/-! Runs abreast.

Two runs of one expression from different worlds come to alike values if what they may tell
their worlds by is alike too. A pact says what that is beyond the caches and objects that both
runs make step by step: which identities and which caches go with each other is their
`Pairing`, and it only ever grows. Runs are `Abreast` if from paired worlds they come to paired
worlds again, with related results or the same error. Dice are rolled only where both worlds
draw the same numbers, and of the host only those objects are asked that answer the same at all
times. -/
namespace Formulary

/-- Which identities and which caches of two runs go with each other. -/
structure Pairing where
  names : Names
  caches : Links

instance : LE Pairing := ⟨fun p q => p.names ≤ q.names ∧ p.caches ≤ q.caches⟩

instance : Preorder Pairing where
  le_refl _ := ⟨le_rfl, le_rfl⟩
  le_trans _ _ _ h h' := ⟨h.1.trans h'.1, h.2.trans h'.2⟩

/-- Two one-to-one relations make one if no element of a pair is in a different pair of the
other. -/
theorem biUnique_or {α β : Type} {R S : α → β → Prop} (hR : Relator.BiUnique R)
    (hS : Relator.BiUnique S) (hcross : ∀ a b c d, R a b → S c d → (a = c ↔ b = d)) :
    Relator.BiUnique fun a b => R a b ∨ S a b := by
  constructor
  · rintro a c b (ha | ha) (hc | hc)
    · exact hR.1 ha hc
    · exact (hcross a b c b ha hc).2 rfl
    · exact ((hcross c b a b hc ha).2 rfl).symm
    · exact hS.1 ha hc
  · rintro a b d (hb | hb) (hd | hd)
    · exact hR.2 hb hd
    · exact (hcross a b a d hb hd).1 rfl
    · exact ((hcross a d a b hd hb).1 rfl).symm
    · exact hS.2 hb hd

theorem biUnique_pair {α β : Type} (a : α) (b : β) :
    Relator.BiUnique fun c d => c = a ∧ d = b :=
  ⟨fun _ _ _ h h' => h.1.trans h'.1.symm, fun _ _ _ h h' => h.2.trans h'.2.symm⟩

/-- As many new identities on both sides, one after the other. -/
def Names.extend (names : Names) (first first' count : Nat) : Names := fun i i' =>
  names i i' ∨ ∃ k < count, i = first + k ∧ i' = first' + k

/-- The objects of the host in `hosts` answer the names of the vocabulary the same at all
times, with values that are known. -/
structure World.Steadfast (V : Vocabulary) (hosts : Nat → Prop) (w : World) : Prop where
  same : ∀ handle key log, hosts handle → V.name key →
    w.answer log ⟨handle, .query, key⟩ = w.answer w.log ⟨handle, .query, key⟩
  known : ∀ handle key v, hosts handle → V.name key →
    w.answer w.log ⟨handle, .query, key⟩ = .ok v → v.Known hosts w.free

/-- The cache has a value for the name. -/
def World.Recalls (w : World) (slot : Nat) (n : String) : Prop :=
  n ∈ Keyed.keys (w.caches.getD slot [])

theorem getD_push {α : Type} (caches : Array (List α)) (slot : Nat) :
    (caches.push []).getD slot [] = caches.getD slot [] := by
  rw [Array.getD_eq_getD_getElem?, Array.getD_eq_getD_getElem?, Array.getElem?_push]
  split
  · next hslot => simp [hslot]
  · rfl

theorem getD_modify_of_ne {α : Type} (caches : Array (List α)) {k slot : Nat} (h : k ≠ slot)
    (f : List α → List α) : (caches.modify k f).getD slot [] = caches.getD slot [] := by
  rw [Array.getD_eq_getD_getElem?, Array.getD_eq_getD_getElem?, Array.getElem?_modify, if_neg h]

theorem getD_modify_self {α : Type} {caches : Array (List α)} {slot : Nat}
    (h : slot < caches.size) (f : List α → List α) :
    (caches.modify slot f).getD slot [] = f (caches.getD slot []) := by
  rw [Array.getD_eq_getD_getElem?, Array.getD_eq_getD_getElem?, Array.getElem?_modify, if_pos rfl,
    Array.getElem?_eq_getElem h]
  rfl

theorem World.Recalls.push {w : World} {slot : Nat} {n : String} (h : w.Recalls slot n) :
    World.Recalls { w with caches := w.caches.push [] } slot n := by
  show n ∈ Keyed.keys ((w.caches.push []).getD slot [])
  rwa [getD_push]

theorem World.Recalls.remember {w : World} {slot : Nat} {n : String} (h : w.Recalls slot n)
    (k : Nat) (key : String) (v : Value) :
    World.Recalls { w with caches := w.caches.modify k ((key, v) :: ·) } slot n := by
  show n ∈ Keyed.keys ((w.caches.modify k _).getD slot [])
  by_cases hk : k = slot
  · have hsize : slot < w.caches.size := by
      by_contra hsize
      simp [World.Recalls, Keyed.keys, hsize] at h
    rw [hk, getD_modify_self hsize]
    exact List.mem_cons_of_mem _ h
  · rwa [getD_modify_of_ne _ hk]

/-- What two runs keep to, and the words that they are written in. -/
structure Pact extends Vocabulary where
  /-- The objects of the host that may be asked. -/
  hosts : Nat → Prop
  /-- The world that both runs go back to: its host is asked, its objects are known, and what
  it remembers stays remembered. -/
  start : World
  /-- The caches of the first run that may be paired. -/
  own : Nat → Prop
  /-- What holds of the worlds besides. -/
  holds : Names → World → World → Prop

namespace Pact

variable {p : Pact} {now later : Pairing} {w w' : World}

/-- The values are alike. -/
def alike (p : Pact) (now : Pairing) (v v' : Value) : Prop := v.Alike p.hosts now.names v'

/-- The values in the lists are alike. -/
def alikeItems (p : Pact) (now : Pairing) (items items' : List Value) : Prop :=
  ItemsAlike p.hosts now.names items items'

/-- The worlds are as the pact says, and paired caches hold alike values. -/
structure Paired (p : Pact) (now : Pairing) (w w' : World) : Prop where
  answer : w.answer = p.start.answer
  answer' : w'.answer = p.start.answer
  known : Names.below p.start.free ≤ now.names
  bounded : ∀ i i', now.names i i' → i < w.free ∧ i' < w'.free
  single : Relator.BiUnique now.names
  kept : ∀ k n, p.start.Recalls k n → w.Recalls k n
  own : ∀ k k', now.caches k k' → p.own k
  same : ∀ k k', now.caches k k' → ∃ entries entries', w.caches[k]? = some entries ∧
    w'.caches[k']? = some entries' ∧ EntriesAlike p.hosts now.names entries entries'
  linked : Relator.BiUnique now.caches
  holds : p.holds now.names w w'

/-- What evaluation does by itself keeps what holds of the worlds. -/
structure Closed (p : Pact) : Prop where
  draw : p.operator .dice → ∀ names w w', p.holds names w w' →
    w.generator = w'.generator ∧ w.state = w'.state ∧
      ∀ n, p.holds names { w with state := n } { w' with state := n }
  host : p.start.Steadfast p.toVocabulary p.hosts
  ask : ∀ names w w' l, p.holds names w w' →
    p.holds names { w with log := w.log.push l } { w' with log := w'.log.push l }
  allocate : ∀ now w w' count, p.Paired now w w' →
    p.holds (now.names.extend w.free w'.free count) { w with free := w.free + count }
      { w' with free := w'.free + count }
  openCache : ∀ names w w', p.holds names w w' → p.own w.caches.size ∧
    p.holds names { w with caches := w.caches.push [] } { w' with caches := w'.caches.push [] }
  remember : ∀ names w w' k k' key v v', p.own k → p.holds names w w' →
    p.holds names { w with caches := w.caches.modify k ((key, v) :: ·) }
      { w' with caches := w'.caches.modify k' ((key, v') :: ·) }

/-! ### Steps of paired worlds -/

theorem Paired.ask (hp : p.Closed) (h : p.Paired now w w') (l : Lookup) :
    p.Paired now { w with log := w.log.push l } { w' with log := w'.log.push l } :=
  { h with holds := hp.ask _ _ _ l h.holds }

/-- The same number of new identities on both sides. -/
theorem Paired.allocate (hp : p.Closed) (h : p.Paired now w w') (count : Nat) :
    p.Paired ⟨now.names.extend w.free w'.free count, now.caches⟩
      { w with free := w.free + count } { w' with free := w'.free + count } := by
  refine
    { h with
      known := h.known.trans fun i i' => .inl
      bounded := ?_
      single := ?_
      same := fun k k' hk => ?_
      holds := hp.allocate now w w' count h }
  · rintro i i' (hi | ⟨k, hk, rfl, rfl⟩)
    · have := h.bounded i i' hi
      exact ⟨by simp only; omega, by simp only; omega⟩
    · exact ⟨by simp only; omega, by simp only; omega⟩
  · refine biUnique_or h.single ⟨?_, ?_⟩ fun i i' j j' hi ⟨k, _, hj, hj'⟩ => ?_
    · rintro i j i' ⟨k, _, hi, hi'⟩ ⟨l, _, hj, hj'⟩
      omega
    · rintro i i' j' ⟨k, _, hi, hi'⟩ ⟨l, _, hj, hj'⟩
      omega
    · have hbounded := h.bounded i i' hi
      omega
  · obtain ⟨entries, entries', hentries, hentries', hsame⟩ := h.same k k' hk
    exact ⟨entries, entries', hentries, hentries', hsame.mono fun i i' => .inl⟩

theorem le_extend (now : Pairing) (first first' count : Nat) :
    now ≤ ⟨now.names.extend first first' count, now.caches⟩ :=
  ⟨fun _ _ => .inl, le_rfl⟩

theorem Paired.lt_size (h : p.Paired now w w') {k k' : Nat} (hk : now.caches k k') :
    k < w.caches.size ∧ k' < w'.caches.size := by
  obtain ⟨entries, entries', hentries, hentries', -⟩ := h.same k k' hk
  exact ⟨(Array.getElem?_eq_some_iff.1 hentries).1, (Array.getElem?_eq_some_iff.1 hentries').1⟩

/-- No identity of the beginning has become free. -/
theorem Paired.free_le (h : p.Paired now w w') : p.start.free ≤ w.free := by
  by_contra hlt
  have hfree : now.names w.free w.free := h.known _ _ ⟨rfl, Nat.lt_of_not_le hlt⟩
  exact absurd (h.bounded _ _ hfree).1 (Nat.lt_irrefl _)

/-- One more cache on both sides, paired. -/
theorem Paired.push (hp : p.Closed) (h : p.Paired now w w') :
    ∃ later, now ≤ later ∧ later.caches w.caches.size w'.caches.size ∧
      p.Paired later { w with caches := w.caches.push [] }
        { w' with caches := w'.caches.push [] } := by
  obtain ⟨hown, hholds⟩ := hp.openCache _ _ _ h.holds
  refine ⟨⟨now.names, fun k k' => now.caches k k' ∨ k = w.caches.size ∧ k' = w'.caches.size⟩,
    ⟨le_rfl, fun k k' => .inl⟩, .inr ⟨rfl, rfl⟩,
    { h with
      kept := fun k n hn => (h.kept k n hn).push
      own := ?_
      same := ?_
      linked := ?_
      holds := hholds }⟩
  · rintro k k' (hk | ⟨rfl, -⟩)
    · exact h.own k k' hk
    · exact hown
  · rintro k k' (hk | ⟨rfl, rfl⟩)
    · obtain ⟨entries, entries', hentries, hentries', hsame⟩ := h.same k k' hk
      obtain ⟨hsize, hsize'⟩ := h.lt_size hk
      refine ⟨entries, entries', ?_, ?_, hsame⟩
      · rwa [Array.getElem?_push_lt hsize, ← Array.getElem?_eq_getElem hsize]
      · rwa [Array.getElem?_push_lt hsize', ← Array.getElem?_eq_getElem hsize']
    · exact ⟨[], [], by simp, by simp, .nil⟩
  · refine biUnique_or h.linked (biUnique_pair _ _) fun k k' l l' hk ⟨hl, hl'⟩ => ?_
    have hsize := h.lt_size hk
    omega

/-- Alike values remembered on both sides. -/
theorem Paired.remember (hp : p.Closed) (h : p.Paired now w w') {k k' : Nat} {v v' : Value}
    (key : String) (hk : now.caches k k') (hv : p.alike now v v') :
    p.Paired now { w with caches := w.caches.modify k ((key, v) :: ·) }
      { w' with caches := w'.caches.modify k' ((key, v') :: ·) } := by
  refine
    { h with
      kept := fun l n hn => (h.kept l n hn).remember k key v
      same := fun l l' hl => ?_
      holds := hp.remember _ _ _ k k' key v v' (h.own k k' hk) h.holds }
  obtain ⟨entries, entries', hentries, hentries', hsame⟩ := h.same l l' hl
  by_cases hkl : k = l
  · subst hkl
    obtain rfl := h.linked.2 hk hl
    exact ⟨(key, v) :: entries, (key, v') :: entries', by simp [Array.getElem?_modify, hentries],
      by simp [Array.getElem?_modify, hentries'], .cons hv hsame⟩
  · have hkl' : k' ≠ l' := fun heq => hkl (h.linked.1 hk (heq ▸ hl))
    refine ⟨entries, entries', ?_, ?_, hsame⟩
    · simp [Array.getElem?_modify, hkl, hentries]
    · simp [Array.getElem?_modify, hkl', hentries']

/-! ### Runs -/

section
variable {α α' β β' σ σ' : Type} {r : Run α} {r' : Run α'} {post : Pairing → α → α' → Prop}
  {Q : Pairing → β → β' → Prop}

/-- What two runs come to: related results, or the same error. -/
inductive Corresponds (p : Pact) (now : Pairing) (post : Pairing → α → α' → Prop) :
    Except EvalError α × World → Except EvalError α' × World → Prop where
  | ok {later : Pairing} {a : α} {a' : α'} {w w' : World} (hle : now ≤ later)
      (h : post later a a') (hw : p.Paired later w w') :
      Corresponds p now post (.ok a, w) (.ok a', w')
  | error {later : Pairing} {e : EvalError} {w w' : World} (hle : now ≤ later)
      (hw : p.Paired later w w') : Corresponds p now post (.error e, w) (.error e, w')

theorem Corresponds.earlier {y : Except EvalError α × World} {y' : Except EvalError α' × World}
    (h : p.Corresponds later post y y') (hle : now ≤ later) : p.Corresponds now post y y' := by
  cases h with
  | ok hle' h hw => exact .ok (hle.trans hle') h hw
  | error hle' hw => exact .error (hle.trans hle') hw

/-- From paired worlds the runs come to related results or the same error, and to paired
worlds. -/
def Abreast (p : Pact) (now : Pairing) (r : Run α) (r' : Run α')
    (post : Pairing → α → α' → Prop) : Prop :=
  ∀ w w', p.Paired now w w' → p.Corresponds now post (r.run.run w) (r'.run.run w')

namespace Abreast

theorem pure {a : α} {a' : α'} (h : post now a a') :
    p.Abreast now (Pure.pure a) (Pure.pure a') post :=
  fun _ _ hw => .ok le_rfl h hw

theorem fail {e : EvalError} : p.Abreast now (throw e : Run α) (throw e : Run α') post :=
  fun _ _ hw => .error le_rfl hw

theorem ofExcept {x : Except EvalError α} {x' : Except EvalError α'}
    (h : Likewise (post now) x x') :
    p.Abreast now (Run.ofExcept x) (Run.ofExcept x') post := by
  cases h with
  | ok h => exact .pure h
  | error e => exact .fail

/-- The same outcome. -/
theorem ofEq {x x' : Except EvalError α} (h : x = x') :
    p.Abreast now (Run.ofExcept x) (Run.ofExcept x') fun _ => Eq :=
  .ofExcept (.of_eq h)

theorem bind {f : α → Run β} {f' : α' → Run β'} (h : p.Abreast now r r' post)
    (hf : ∀ later, now ≤ later → ∀ a a', post later a a' → p.Abreast later (f a) (f' a') Q) :
    p.Abreast now (r >>= f) (r' >>= f') Q := by
  intro w w' hw
  have hstep := h w w' hw
  rw [Run.run_bind, Run.run_bind]
  generalize r.run.run w = y at hstep ⊢
  generalize r'.run.run w' = y' at hstep ⊢
  cases hstep with
  | ok hle ha hw => exact (hf _ hle _ _ ha _ _ hw).earlier hle
  | error hle hw => exact .error hle hw

theorem map {f : α → β} {f' : α' → β'} (h : p.Abreast now r r' post)
    (hf : ∀ later, now ≤ later → ∀ a a', post later a a' → Q later (f a) (f' a')) :
    p.Abreast now (f <$> r) (f' <$> r') Q := by
  rw [← bind_pure_comp, ← bind_pure_comp]
  exact h.bind fun later hle a a' ha => .pure (hf later hle a a' ha)

theorem mono {post' : Pairing → α → α' → Prop} (h : p.Abreast now r r' post)
    (hpost : ∀ later, now ≤ later → ∀ a a', post later a a' → post' later a a') :
    p.Abreast now r r' post' := by
  have hmap : p.Abreast now (id <$> r) (id <$> r') post' := h.map hpost
  rwa [id_map, id_map] at hmap

/-- A computation that cannot fail. -/
theorem lift {x : Always α} {x' : Always α'} (h : ∀ w w', p.Paired now w w' →
    ∃ later, now ≤ later ∧ post later (x.run w).1 (x'.run w').1 ∧
      p.Paired later (x.run w).2 (x'.run w').2) :
    p.Abreast now (liftM x : Run α) (liftM x' : Run α') post := by
  intro w w' hw
  obtain ⟨later, hle, ha, hw⟩ := h w w' hw
  exact .ok hle ha hw

/-! ### Loops -/

/-- A list beside itself, with what is known of its elements. -/
theorem forall₂_self {P : β → Prop} {items : List β} (h : ∀ item ∈ items, P item) :
    List.Forall₂ (fun item item' => item = item' ∧ P item) items items :=
  List.forall₂_same.2 fun item hitem => ⟨rfl, h item hitem⟩

section
variable {R : β → β' → Prop} {items : List β} {items' : List β'}

theorem foldlM {I : Pairing → σ → σ' → Prop} {f : σ → β → Run σ} {f' : σ' → β' → Run σ'}
    {s : σ} {s' : σ'} (hitems : List.Forall₂ R items items') (hs : I now s s')
    (h : ∀ later, now ≤ later → ∀ s s', I later s s' → ∀ item item', R item item' →
      p.Abreast later (f s item) (f' s' item') I) :
    p.Abreast now (items.foldlM f s) (items'.foldlM f' s') I := by
  induction hitems generalizing now s s' with
  | nil => exact .pure hs
  | cons hitem _ ih =>
    rw [List.foldlM_cons, List.foldlM_cons]
    refine (h now le_rfl s s' hs _ _ hitem).bind fun later hle t t' ht => ih ht ?_
    exact fun later' hle' => h later' (hle.trans hle')

theorem mapM {f : β → Run α} {f' : β' → Run α'}
    (hpost : ∀ now later a a', now ≤ later → post now a a' → post later a a')
    (hitems : List.Forall₂ R items items')
    (h : ∀ later, now ≤ later → ∀ item item', R item item' →
      p.Abreast later (f item) (f' item') post) :
    p.Abreast now (items.mapM f) (items'.mapM f') fun later => List.Forall₂ (post later) := by
  induction hitems generalizing now with
  | nil => exact .pure .nil
  | cons hitem _ ih =>
    rw [List.mapM_cons, List.mapM_cons]
    refine (h now le_rfl _ _ hitem).bind fun later hle a a' ha => ?_
    refine (ih fun later' hle' => h later' (hle.trans hle')).bind fun later' hle' as as' has => ?_
    exact .pure (.cons (hpost _ _ _ _ hle' ha) has)

theorem filterMapM {f : β → Run (Option α)} {f' : β' → Run (Option α')}
    (hpost : ∀ now later a a', now ≤ later → post now a a' → post later a a')
    (hitems : List.Forall₂ R items items')
    (h : ∀ later, now ≤ later → ∀ item item', R item item' →
      p.Abreast later (f item) (f' item') fun later => Option.Rel (post later)) :
    p.Abreast now (items.filterMapM f) (items'.filterMapM f')
      fun later => List.Forall₂ (post later) := by
  induction hitems generalizing now with
  | nil => exact .pure .nil
  | cons hitem _ ih =>
    rw [List.filterMapM_cons, List.filterMapM_cons]
    refine (h now le_rfl _ _ hitem).bind fun later hle a a' ha => ?_
    have hrest := ih fun later' hle' => h later' (hle.trans hle')
    cases ha with
    | none => exact hrest
    | some ha =>
      exact hrest.bind fun later' hle' as as' has => .pure (.cons (hpost _ _ _ _ hle' ha) has)

theorem findM? {f : β → Run Bool} {f' : β' → Run Bool} (hitems : List.Forall₂ R items items')
    (h : ∀ later, now ≤ later → ∀ item item', R item item' →
      p.Abreast later (f item) (f' item') fun _ => Eq) :
    p.Abreast now (items.findM? f) (items'.findM? f') fun _ => Option.Rel R := by
  induction hitems generalizing now with
  | nil => exact .pure .none
  | cons hitem _ ih =>
    rw [List.findM?, List.findM?]
    refine (h now le_rfl _ _ hitem).bind fun later hle b _ hb => ?_
    subst hb
    cases b with
    | true => exact .pure (.some hitem)
    | false => exact ih fun later' hle' => h later' (hle.trans hle')

/-! ### Sorting -/

variable {before : β → β → Run Bool} {before' : β' → β' → Run Bool}

theorem merge {left right : List β} {left' right' : List β'}
    (hbefore : ∀ later, now ≤ later → ∀ a a' b b', R a a' → R b b' →
      p.Abreast later (before a b) (before' a' b') fun _ => Eq)
    (hleft : List.Forall₂ R left left') (hright : List.Forall₂ R right right') :
    p.Abreast now (Formulary.merge before left right) (Formulary.merge before' left' right')
      fun _ => List.Forall₂ R := by
  induction left, right using merge.induct generalizing now left' right' with
  | case1 right =>
    cases hleft
    simp only [Formulary.merge]
    exact .pure hright
  | case2 left hne =>
    cases hright
    cases hleft with
    | nil => exact absurd rfl hne
    | cons ha hleft =>
      simp only [Formulary.merge]
      exact .pure (.cons ha hleft)
  | case3 a left b right ihright ihleft =>
    cases hleft with
    | cons ha hleft =>
      cases hright with
      | cons hb hright =>
        simp only [Formulary.merge]
        refine (hbefore now le_rfl _ _ _ _ hb ha).bind fun later hle first _ hfirst => ?_
        subst hfirst
        have hbefore' := fun later' hle' => hbefore later' (hle.trans hle')
        cases first with
        | true =>
          exact (ihright hbefore' (.cons ha hleft) hright).bind fun _ _ _ _ hmerged =>
            .pure (.cons hb hmerged)
        | false =>
          exact (ihleft hbefore' hleft (.cons hb hright)).bind fun _ _ _ _ hmerged =>
            .pure (.cons ha hmerged)

theorem mergeSort (hbefore : ∀ later, now ≤ later → ∀ a a' b b', R a a' → R b b' →
      p.Abreast later (before a b) (before' a' b') fun _ => Eq)
    (hitems : List.Forall₂ R items items') :
    p.Abreast now (Formulary.mergeSort before items) (Formulary.mergeSort before' items')
      fun _ => List.Forall₂ R := by
  induction items using mergeSort.induct generalizing now items' with
  | case1 items h =>
    rw [mergeSort_of_length_le h, mergeSort_of_length_le (hitems.length_eq ▸ h)]
    exact .pure hitems
  | case2 items h ihleft ihright =>
    have h' : ¬ items'.length ≤ 1 := hitems.length_eq ▸ h
    rw [mergeSort_of_lt_length h, mergeSort_of_lt_length h', ← hitems.length_eq]
    refine (ihleft hbefore (List.forall₂_take _ hitems)).bind fun later hle left left' hleft => ?_
    have hbefore' := fun later' hle' => hbefore later' (hle.trans hle')
    refine (ihright hbefore' (List.forall₂_drop _ hitems)).bind
      fun later' hle' right right' hright => ?_
    exact .merge (fun later'' hle'' => hbefore' later'' (hle'.trans hle'')) hleft hright

end

end Abreast

end

end Pact

end Formulary
