import Formulary.Proofs.Lockstep

/-! Functions and trees in step.

In two scopes that answer alike, a tree is evaluated in step on both sides
(`Pact.Closed.conducts`): functions run their arguments on both sides for alike elements, and
look at nothing in them that could tell these from each other. -/
namespace Formulary.Pact

open Builtin

variable {p : Pact} {now later : Pairing} {s s' : Scope} {m : Meaning} {a a' b b' : Value}
  {items items' : List Value}

/-! ### Least, greatest and best -/

theorem extreme (wanted : Ordering) {arguments : List Meaning}
    (h : ∀ m ∈ arguments, p.Conducts m) : p.Conducts (Builtin.extreme wanted arguments) := by
  intro now s s' hs
  refine (Abreast.foldlM (I := fun later => Option.Rel (p.alike later)) (Abreast.forall₂_self h)
    .none fun later hle best best' hbest m m' ⟨hsame, hm⟩ => ?_).bind
    fun later _ best best' hbest => ?_
  · subst hsame
    refine (hm later s s' (hs.mono hle)).bind fun later' hle' v v' hv => ?_
    have hbest' : Option.Rel (p.alike later') best best' := by
      cases hbest with
      | none => exact .none
      | some hbest => exact .some (hbest.mono hle'.1)
    exact .ofExcept (likewise_foldlM_better wanted hbest' hv.offers)
  · cases hbest with
    | none => exact .pure (.integer 0)
    | some hbest => exact .pure hbest

theorem Conducts.chooseBest (hm : p.Conducts m) (hp : p.Closed)
    (hitems : p.alikeItems now items items') (hs : p.Binds now s s') :
    p.Abreast now (Builtin.chooseBest m s items) (Builtin.chooseBest m s' items') p.alike := by
  let I (later : Pairing) : Option (Value × Value) → Option (Value × Value) → Prop :=
    Option.Rel fun b b' => p.alike later b.1 b'.1 ∧ p.alike later b.2 b'.2
  refine (Abreast.foldlM (I := I) (itemsAlike_iff.1 hitems) .none
    fun later hle best best' hbest item item' hitem => ?_).bind fun later _ best best' hbest => ?_
  · have hitem : p.alike later item item' := hitem.mono hle.1
    refine (hm.forElement hp hitem (hs.mono hle)).bind fun later' hle' score score' hscore => ?_
    have hnew : I later' (some (score, item)) (some (score', item')) :=
      .some ⟨hscore, hitem.mono hle'.1⟩
    cases hbest with
    | none => exact .pure hnew
    | some hbest =>
      obtain ⟨hbestScore, hbest⟩ := hbest
      refine (Abreast.ofEq (hscore.order_eq (hbestScore.mono hle'.1))).bind
        fun later'' hle'' o _ ho => .pure ?_
      subst ho
      split
      · exact .some ⟨hscore.mono hle''.1, hitem.mono (hle'.trans hle'').1⟩
      · exact .some ⟨hbestScore.mono (hle'.trans hle'').1, hbest.mono (hle'.trans hle'').1⟩
  · cases hbest with
    | none => exact .pure (.integer 0)
    | some hbest => exact .pure hbest.2

/-! ### Order and sums -/

theorem abreast_precedes (ha : p.alike now a a') (hb : p.alike now b b') :
    p.Abreast now (precedes a b) (precedes a' b') fun _ => Eq :=
  (Abreast.ofEq (ha.order_eq hb)).bind fun _ _ _ _ ho => .pure (congrArg (· == .lt) ho)

theorem Closed.abreast_total (hp : p.Closed) (hitems : p.alikeItems now items items') :
    p.Abreast now (total items) (total items') fun _ => Eq := by
  refine .foldlM (itemsAlike_iff.1 hitems) rfl fun later _ sum _ hsum item item' hitem => ?_
  subst hsum
  refine (Abreast.ofEq (hitem.asInteger_eq _)).bind fun later' _ k _ hk => ?_
  subst hk
  exact ((Means.closed_computing _).narrow _ _).abreast_same hp

/-! ### Single functions -/

section
variable {list before condition expression yes no start goal : Meaning}

theorem Conducts.branch (hcondition : p.Conducts condition) (hyes : p.Conducts yes)
    (hno : p.Conducts no) : p.Conducts (applyAccepted .branch [condition, yes, no]) := by
  intro now s s' hs
  refine (hcondition now s s' hs).bind fun later hle v v' hv => ?_
  refine (Abreast.ofEq hv.truth_eq).bind fun later' hle' b _ hb => ?_
  subst hb
  have hs' := hs.mono (hle.trans hle')
  cases b with
  | true => exact hyes later' s s' hs'
  | false => exact hno later' s s' hs'

/-- A list of values that were alike before is alike. -/
theorem alike_list (hle : now ≤ later) (h : List.Forall₂ (p.alike now) items items') :
    p.alike later (.list items) (.list items') :=
  .list ((itemsAlike_iff.2 h).mono hle.1)

theorem Conducts.sort (hlist : p.Conducts list) : p.Conducts (applyAccepted .sort [list]) := by
  intro now s s' hs
  refine (hlist.listArgument _ hs).bind fun later _ items items' hitems => ?_
  have hprecedes (later' : Pairing) (hle : later ≤ later') (a a' b b' : Value)
      (ha : p.alike later a a') (hb : p.alike later b b') :
      p.Abreast later' (precedes a b) (precedes a' b') fun _ => Eq :=
    abreast_precedes (ha.mono hle.1) (hb.mono hle.1)
  exact (Abreast.mergeSort hprecedes (itemsAlike_iff.1 hitems)).map
    fun _ hle _ _ => alike_list hle

theorem Conducts.sortBy (hlist : p.Conducts list) (hbefore : p.Conducts before) :
    p.Conducts (applyAccepted .sort [list, before]) := by
  intro now s s' hs
  refine (hlist.listArgument _ hs).bind fun later hlater items items' hitems => ?_
  have hprecedes (later' : Pairing) (hle : later ≤ later') (a a' b b' : Value)
      (ha : p.alike later a a') (hb : p.alike later b b') :
      p.Abreast later' (Builtin.precedesBy before s a b) (Builtin.precedesBy before s' a' b')
        fun _ => Eq :=
    hbefore.precedesBy (ha.mono hle.1) (hb.mono hle.1) (hs.mono (hlater.trans hle))
  exact (Abreast.mergeSort hprecedes (itemsAlike_iff.1 hitems)).map
    fun _ hle _ _ => alike_list hle

theorem Conducts.filter (hp : p.Closed) (hlist : p.Conducts list)
    (hcondition : p.Conducts condition) : p.Conducts (applyAccepted .filter [list, condition]) := by
  intro now s s' hs
  refine (hlist.listArgument _ hs).bind fun later hlater items items' hitems => ?_
  refine (Abreast.filterMapM alike_mono (itemsAlike_iff.1 hitems)
    fun later' hle item item' hitem => ?_).map fun _ _ _ _ => alike_list le_rfl
  have hitem : p.alike later' item item' := hitem.mono hle.1
  refine (hcondition.holdsFor hp hitem (hs.mono (hlater.trans hle))).bind
    fun later'' hle' b _ hb => ?_
  subst hb
  cases b with
  | true => exact .pure (.some (hitem.mono hle'.1))
  | false => exact .pure .none

theorem Conducts.find (hp : p.Closed) (hlist : p.Conducts list)
    (hcondition : p.Conducts condition) : p.Conducts (applyAccepted .find [list, condition]) := by
  intro now s s' hs
  refine (hlist.listArgument _ hs).bind fun later hlater items items' hitems => ?_
  have hholds (later' : Pairing) (hle : later ≤ later') (item item' : Value)
      (hitem : p.alike later item item') :
      p.Abreast later' (Builtin.holdsFor condition s item) (Builtin.holdsFor condition s' item')
        fun _ => Eq :=
    hcondition.holdsFor hp (hitem.mono hle.1) (hs.mono (hlater.trans hle))
  refine (Abreast.findM? (itemsAlike_iff.1 hitems) hholds).bind fun later' hle _ _ hfound => ?_
  cases hfound with
  | none => exact .pure (.integer 0)
  | some hfound => exact .pure (hfound.mono hle.1)

theorem Conducts.map (hp : p.Closed) (hlist : p.Conducts list)
    (hexpression : p.Conducts expression) : p.Conducts (applyAccepted .map [list, expression]) := by
  intro now s s' hs
  refine (hlist.listArgument _ hs).bind fun later hlater items items' hitems => ?_
  have hmap := Abreast.mapM alike_mono (itemsAlike_iff.1 hitems) fun later' hle _ _ hitem =>
    hexpression.forElement hp (hitem.mono hle.1) (hs.mono (hlater.trans hle))
  exact hmap.map fun _ _ _ _ => alike_list le_rfl

theorem Conducts.distance (hstart : p.Conducts start) (hgoal : p.Conducts goal) :
    p.Conducts (applyAccepted .distance [start, goal]) := by
  intro now s s' hs
  refine (hstart.locationArgument hs).bind fun later hle k _ hk => ?_
  refine (hgoal.locationArgument (hs.mono hle)).bind fun later' _ l _ hl => ?_
  subst hk hl
  split
  · exact .pure (.integer _)
  · exact .fail

theorem Conducts.loc (hp : p.Closed) {column row : Meaning} (hcolumn : p.Conducts column)
    (hrow : p.Conducts row) : p.Conducts (applyAccepted .loc [column, row]) := by
  intro now s s' hs
  refine (hcolumn.integerArgument _ hs).bind fun later hle x _ hx => ?_
  refine (hrow.integerArgument _ (hs.mono hle)).bind fun later' _ y _ hy => ?_
  subst hx hy
  exact hp.abreast_newObject (.tile ⟨x, y⟩)

end

/-! ### Calls -/

theorem Closed.conducts_applyAccepted (hp : p.Closed) {f : Builtin} {arguments : List Meaning}
    (harity : f.arity.accepts arguments.length = true) (h : ∀ m ∈ arguments, p.Conducts m) :
    p.Conducts (f.applyAccepted arguments) := by
  have hinteger {r : Run Int64} {post : Int64 → Prop} {now : Pairing}
      (hr : Stepwise (.computing p.operator) (fun _ => r) post) :
      p.Abreast now (Value.integer <$> r) (Value.integer <$> r) p.alike :=
    (hr.abreast_same hp).map fun _ _ k _ hk => hk ▸ .integer k
  have hA := Means.closed_computing p.operator
  cases f with
  | branch =>
    match arguments, harity with
    | [condition, yes, no], _ =>
      simp only [List.forall_mem_cons] at h
      obtain ⟨hcondition, hyes, hno, -⟩ := h
      exact hcondition.branch hyes hno
  | abs =>
    obtain ⟨argument, rfl⟩ := List.length_eq_one_iff.1 (of_decide_eq_true harity)
    have hargument := List.forall_mem_singleton.1 h
    intro now s s' hs
    refine (hargument.integerArgument _ hs).bind fun later _ k _ hk => ?_
    subst hk
    exact hinteger (hA.narrow _ _)
  | min => exact extreme .lt h
  | max => exact extreme .gt h
  | choose =>
    match arguments, harity with
    | [list, score], _ =>
      obtain ⟨hlist, hscore⟩ := Means.Closed.forall_mem_pair h
      exact fun now s s' hs => (hlist.listArgument _ hs).bind fun later hle items items' hitems =>
        hscore.chooseBest hp hitems (hs.mono hle)
  | sort =>
    match arguments, harity with
    | [list], _ => exact (h list List.mem_cons_self).sort
    | [list, before], _ =>
      obtain ⟨hlist, hbefore⟩ := Means.Closed.forall_mem_pair h
      exact hlist.sortBy hbefore
  | filter =>
    match arguments, harity with
    | [list, condition], _ =>
      obtain ⟨hlist, hcondition⟩ := Means.Closed.forall_mem_pair h
      exact hlist.filter hp hcondition
  | find =>
    match arguments, harity with
    | [list, condition], _ =>
      obtain ⟨hlist, hcondition⟩ := Means.Closed.forall_mem_pair h
      exact hlist.find hp hcondition
  | map =>
    match arguments, harity with
    | [list, expression], _ =>
      obtain ⟨hlist, hexpression⟩ := Means.Closed.forall_mem_pair h
      exact hlist.map hp hexpression
  | sum =>
    obtain ⟨list, rfl⟩ := List.length_eq_one_iff.1 (of_decide_eq_true harity)
    have hlist := List.forall_mem_singleton.1 h
    exact fun now s s' hs => (hlist.listArgument _ hs).bind fun later _ items items' hitems =>
      (hp.abreast_total hitems).map fun _ _ k _ hk => hk ▸ .integer k
  | head =>
    obtain ⟨list, rfl⟩ := List.length_eq_one_iff.1 (of_decide_eq_true harity)
    have hlist := List.forall_mem_singleton.1 h
    exact fun now s s' hs => (hlist now s s' hs).bind fun _ _ _ _ hv => .ofExcept (hv.element 0)
  | size =>
    obtain ⟨list, rfl⟩ := List.length_eq_one_iff.1 (of_decide_eq_true harity)
    have hlist := List.forall_mem_singleton.1 h
    intro now s s' hs
    refine (hlist.listArgument _ hs).bind fun later _ items items' hitems => .pure ?_
    rw [hitems.length_eq]
    exact .integer _
  | rgb =>
    intro now s s' hs
    refine (integerArguments _ h hs).bind fun later _ channels _ hchannels => .pure ?_
    subst hchannels
    exact .integer _
  | transition =>
    have hfive : arguments.length = 5 := of_decide_eq_true harity
    intro now s s' hs
    refine (integerArguments _ h hs).bind fun later _ numbers _ hnumbers => ?_
    subst hnumbers
    split
    · exact hinteger (hA.interpolate _ _ _)
    · exact .fail
  | colorTransition =>
    intro now s s' hs
    refine (integerArguments _ h hs).bind fun later _ numbers _ hnumbers => ?_
    subst hnumbers
    split
    · exact hinteger (hA.interpolateColor _ _)
    · exact .fail
  | loc =>
    match arguments, harity with
    | [column, row], _ =>
      obtain ⟨hcolumn, hrow⟩ := Means.Closed.forall_mem_pair h
      exact hcolumn.loc hp hrow
  | distance =>
    match arguments, harity with
    | [start, goal], _ =>
      obtain ⟨hstart, hgoal⟩ := Means.Closed.forall_mem_pair h
      exact hstart.distance hgoal

theorem Closed.conducts_apply (hp : p.Closed) (f : Builtin) {arguments : List Meaning}
    (h : ∀ m ∈ arguments, p.Conducts m) : p.Conducts (f.apply arguments) := by
  unfold Builtin.apply
  cases harity : f.arity.accepts arguments.length with
  | true => exact hp.conducts_applyAccepted harity h
  | false => exact fun _ _ _ _ => .fail

/-! ### Trees -/

theorem conducts_splice {inserts : List (Nat × Meaning)} (h : ∀ i ∈ inserts, p.Conducts i.2)
    (text : String) (hs : p.Binds now s s') :
    p.Abreast now (splice inserts s text) (splice inserts s' text) fun _ => Eq := by
  refine .foldlM (Abreast.forall₂_self h) rfl
    fun later hle text _ htext i _ ⟨hsame, hi⟩ => ?_
  subst htext hsame
  refine (hi later s s' (hs.mono hle)).bind fun later' _ v v' hv => .pure ?_
  rw [hv.display_eq]

/-- **A tree is evaluated in step** in scopes that have alike answers. -/
theorem Closed.conducts (hp : p.Closed) {e : Expr} (h : e.Within p.toVocabulary) :
    p.Conducts e.eval := by
  induction h with
  | integer n => exact fun _ _ _ _ => .pure (.integer n)
  | name hn => exact fun now s s' hs => hs now le_rfl _ hn
  | @text t inserts _ ih =>
    have hinserts : ∀ i ∈ Expr.insertMeanings inserts, p.Conducts i.2 := by
      rw [Expr.insertMeanings_eq_map]
      exact List.forall_mem_map.2 ih
    exact fun now s s' hs => (conducts_splice hinserts t hs).map fun _ _ t _ ht => ht ▸ .text t
  | @list items _ ih =>
    have hitems : ∀ m ∈ Expr.meanings items, p.Conducts m := by
      rw [Expr.meanings_eq_map]
      exact List.forall_mem_map.2 ih
    intro now s s' hs
    refine (Abreast.mapM alike_mono (Abreast.forall₂_self hitems)
      fun later hle m _ ⟨hsame, hm⟩ => ?_).map fun _ _ _ _ => alike_list le_rfl
    subst hsame
    exact hm later s s' (hs.mono hle)
  | unary _ ih =>
    exact fun now s s' hs => (ih now s s' hs).bind fun _ _ _ _ hv => hp.abreast_unary _ hv
  | binary hop _ _ ihl ihr =>
    intro now s s' hs
    refine (ihl now s s' hs).bind fun later hle a a' ha => ?_
    refine (ihr later s s' (hs.mono hle)).bind fun later' hle' b b' hb => ?_
    exact hp.abreast_binary _ hop (ha.mono hle'.1) hb
  | member _ _ ihs ih =>
    exact fun now s s' hs => (ihs now s s' hs).bind fun later hle v v' hv =>
      ih.selectMember hp hv (hs.mono hle)
  | @call f arguments _ _ ih =>
    show p.Conducts (f.apply (Expr.meanings arguments))
    rw [Expr.meanings_eq_map]
    exact hp.conducts_apply f (List.forall_mem_map.2 ih)
  | @clauses body bindings _ _ ihbody ih =>
    intro now s s' hs w w' hw
    obtain ⟨later, hle, hslots, hw'⟩ := hw.push hp
    have hbindings : ∀ b ∈ bindings.map fun b => (b.1, b.2.eval), p.Conducts b.2 :=
      List.forall_mem_map.2 ih
    have hinner := (hs.mono hle).clauses hp hslots fun n m _ hm =>
      .inr (hbindings _ (mem_of_lookup hm))
    simp only [List.map_map, Function.comp_def, ← Expr.clauseRuns_eq_map] at hinner
    exact (ihbody later _ _ hinner _ _ hw').earlier hle

end Formulary.Pact
