import Formulary.Proofs.Conduct

/-! The steps of the built-in functions.

A call with a count of arguments that the function takes is stepwise if its arguments are
(`applyAccepted`): no function looks further into its list of arguments than its arity
allows, and what it returns is made of what its arguments give. -/
namespace Formulary

namespace Means.Closed

open Builtin

variable {A : Means} {m : Meaning} {items : List Value} (hA : A.Closed)
include hA

/-! ### Arguments -/

omit hA in
theorem forall_mem_pair {p : Meaning → Prop} {first second : Meaning}
    (h : ∀ m ∈ [first, second], p m) : p first ∧ p second :=
  ⟨h first (by simp), h second (by simp)⟩

theorem integerArgument (f : Builtin) (hm : Stepwise A m A.value) :
    Stepwise A (f.integerArgument m) fun _ => True :=
  hm.bind fun v _ => hA.asInteger v _

theorem integerArguments (f : Builtin) {arguments : List Meaning}
    (h : ∀ m ∈ arguments, Stepwise A m A.value) :
    Stepwise A (fun scope => arguments.mapM fun m => f.integerArgument m scope)
      fun numbers => numbers.length = arguments.length := by
  have hall : Stepwise A (fun scope => arguments.mapM fun m => f.integerArgument m scope)
      fun numbers => numbers.length = arguments.length ∧ ∀ n ∈ numbers, True :=
    .mapM fun m hm => hA.integerArgument f (h m hm)
  exact hall.mono fun _ => And.left

theorem listArgument (f : Builtin) (hm : Stepwise A m A.value) :
    Stepwise A (f.listArgument m) fun items => ∀ v ∈ items, A.value v := by
  refine hm.bind fun v hv => hA.ofExcept (ordinary_asList v _) ?_
  intro items h
  cases v with
  | list items' => exact Except.ok.inj h ▸ (hA.list items').1 hv
  | integer | text | object => cases h

theorem locationArgument (hm : Stepwise A m A.value) :
    Stepwise A (Builtin.locationArgument m) fun _ => True := by
  refine hm.bind fun v _ => ?_
  split
  · exact .pure trivial
  · exact hA.throws rfl

/-- An expression runs for an element inside it or with its value. -/
theorem forElement (hm : Stepwise A m A.value) {v : Value} (hv : A.value v) :
    Stepwise A (fun scope => Builtin.forElement m scope v) A.value := by
  have hvalue : Stepwise A (fun scope => m (scope.element v)) A.value :=
    hm.elements (List.forall_mem_singleton.2 hv)
  cases v with
  | object identity o => exact hm.inside fun n => .query hA ((hA.reference _ _).1 hv) n
  | integer | text | list => exact hvalue

theorem holdsFor (hm : Stepwise A m A.value) {v : Value} (hv : A.value v) :
    Stepwise A (fun scope => Builtin.holdsFor m scope v) fun _ => True :=
  (hA.forElement hm hv).bind fun b _ => hA.truth b

/-! ### Least, greatest and best -/

omit hA in
theorem better_spec (wanted : Ordering) {best : Option Value} {candidate : Value}
    (hbest : ∀ v ∈ best, A.value v) (hv : A.value candidate) :
    Ordinary (better wanted best candidate) ∧
      ∀ best', better wanted best candidate = .ok best' → ∀ v ∈ best', A.value v := by
  cases best with
  | none =>
    refine ⟨ordinary_ok, fun best' h v hv' => ?_⟩
    obtain rfl := Except.ok.inj h
    exact Option.some.inj hv' ▸ hv
  | some current =>
    refine ⟨(ordinary_order _ _).bind fun _ _ => ordinary_ok, fun best' h v hv' => ?_⟩
    obtain ⟨o, -, h⟩ := bind_eq_ok_iff.1 h
    obtain rfl := Except.ok.inj h
    obtain rfl := Option.some.inj hv'
    split
    · exact hv
    · exact hbest current rfl

omit hA in
theorem foldlM_better_spec (wanted : Ordering) {best : Option Value}
    (hbest : ∀ v ∈ best, A.value v) (hitems : ∀ v ∈ items, A.value v) :
    Ordinary (items.foldlM (better wanted) best) ∧
      ∀ best', items.foldlM (better wanted) best = .ok best' → ∀ v ∈ best', A.value v := by
  induction items generalizing best with
  | nil => exact ⟨ordinary_ok, fun _ h => Except.ok.inj h ▸ hbest⟩
  | cons item items ih =>
    obtain ⟨hitem, hitems⟩ := List.forall_mem_cons.1 hitems
    obtain ⟨hordinary, hstep⟩ := better_spec wanted hbest hitem
    rw [List.foldlM_cons]
    refine ⟨hordinary.bind fun best' h => (ih (hstep best' h) hitems).1, fun best' h => ?_⟩
    obtain ⟨next, hnext, h⟩ := bind_eq_ok_iff.1 h
    exact (ih (hstep next hnext) hitems).2 best' h

theorem value_offers {v : Value} (hv : A.value v) : ∀ o ∈ offers v, A.value o := by
  cases v with
  | list items => exact (hA.list items).1 hv
  | integer | text | object => exact List.forall_mem_singleton.2 hv

theorem value_getD {best : Option Value} (h : ∀ v ∈ best, A.value v) :
    A.value (best.getD .missing) := by
  cases best with
  | none => exact hA.missing
  | some v => exact h v rfl

theorem extreme (wanted : Ordering) {arguments : List Meaning}
    (h : ∀ m ∈ arguments, Stepwise A m A.value) :
    Stepwise A (Builtin.extreme wanted arguments) A.value := by
  refine (Stepwise.foldlM (I := fun best => ∀ v ∈ best, A.value v) (by simp)
    fun best hbest m hm => ?_).bind fun best hbest => .pure (hA.value_getD hbest)
  refine (h m hm).bind fun v hv => ?_
  obtain ⟨hordinary, hok⟩ := foldlM_better_spec wanted hbest (hA.value_offers hv)
  exact hA.ofExcept hordinary hok

theorem chooseBest (hm : Stepwise A m A.value) (hitems : ∀ v ∈ items, A.value v) :
    Stepwise A (fun scope => Builtin.chooseBest m scope items) A.value := by
  refine (Stepwise.foldlM (I := fun best => ∀ b ∈ best, A.value b.2) (by simp)
    fun best hbest item hitem => ?_).bind fun best hbest => .pure (hA.value_getD ?_)
  · refine (hA.forElement hm (hitems item hitem)).bind fun s _ => ?_
    cases best with
    | none => exact .pure fun b hb => Option.some.inj hb ▸ hitems item hitem
    | some b =>
      refine (hA.order s b.1).bind fun o _ => .pure ?_
      split
      · exact fun b hb => Option.some.inj hb ▸ hitems item hitem
      · exact hbest
  · intro v hv
    obtain ⟨b, hb, rfl⟩ := Option.map_eq_some_iff.1 hv
    exact hbest b hb

/-! ### Order and sums -/

theorem precedes (a b : Value) : Stepwise A (fun _ => Builtin.precedes a b) fun _ => True :=
  (hA.order a b).bind fun _ _ => .pure trivial

theorem precedesBy (hm : Stepwise A m A.value) {a b : Value} (ha : A.value a) (hb : A.value b) :
    Stepwise A (fun scope => Builtin.precedesBy m scope a b) fun _ => True := by
  have hpair : Stepwise A (fun scope => m (scope.pair a b)) A.value :=
    hm.elements (List.forall_mem_cons.2 ⟨ha, List.forall_mem_singleton.2 hb⟩)
  exact hpair.bind fun v _ => hA.truth v

theorem total (items : List Value) : Stepwise A (fun _ => Builtin.total items) fun _ => True := by
  refine .foldlM trivial fun sum _ item _ => ?_
  exact (hA.asInteger item _).bind fun n _ => hA.narrow _ _

/-! ### Interpolation -/

theorem interpolate (lower upper : Point) (x : Int64) :
    Stepwise A (fun _ => Formulary.interpolate lower upper x) fun _ => True := by
  unfold Formulary.interpolate
  split
  · exact .pure trivial
  · exact hA.throws rfl

theorem interpolateColor (points : List Point) (x : Int64) :
    Stepwise A (fun _ => Formulary.interpolateColor points x) fun _ => True := by
  have hfail : Stepwise A (fun _ => throw .boundariesNotIncreasing : Scope → Run PUnit)
      fun _ => False := hA.throws rfl
  unfold Formulary.interpolateColor
  simp only
  split
  · exact hfail.bind fun _ h => h.elim
  · split
    · exact .pure trivial
    · next a b _ =>
      have hchannel (place : Int) := hA.interpolate ⟨a.position, channel a.level place⟩
        ⟨b.position, channel b.level place⟩ x
      exact (Stepwise.mapM fun place _ => hchannel place).bind fun _ _ => .pure trivial

/-! ### Single functions -/

section
variable {list before condition expression yes no start goal : Meaning}

theorem branch (hcondition : Stepwise A condition A.value) (hyes : Stepwise A yes A.value)
    (hno : Stepwise A no A.value) :
    Stepwise A (applyAccepted .branch [condition, yes, no]) A.value := by
  refine hcondition.bind fun v _ => (hA.truth v).bind fun b _ => ?_
  cases b with
  | true => exact hyes
  | false => exact hno

theorem sort (hlist : Stepwise A list A.value) : Stepwise A (applyAccepted .sort [list]) A.value := by
  refine (hA.listArgument _ hlist).bind fun items hitems => ?_
  exact (Stepwise.mergeSort (I := A.value) (fun a b _ _ => hA.precedes a b) hitems).map
    fun sorted hsorted => (hA.list sorted).2 hsorted

theorem sortBy (hlist : Stepwise A list A.value) (hbefore : Stepwise A before A.value) :
    Stepwise A (applyAccepted .sort [list, before]) A.value := by
  refine (hA.listArgument _ hlist).bind fun items hitems => ?_
  have hprecedes (a b : Value) (ha : A.value a) (hb : A.value b) := hA.precedesBy hbefore ha hb
  exact (Stepwise.mergeSort (I := A.value) hprecedes hitems).map
    fun sorted hsorted => (hA.list sorted).2 hsorted

theorem filter (hlist : Stepwise A list A.value) (hcondition : Stepwise A condition A.value) :
    Stepwise A (applyAccepted .filter [list, condition]) A.value := by
  refine (hA.listArgument _ hlist).bind fun items hitems => ?_
  refine (Stepwise.filterMapM fun item hitem => ?_).map fun kept hkept => (hA.list kept).2 hkept
  refine (hA.holdsFor hcondition (hitems item hitem)).bind fun b _ => ?_
  cases b with
  | true => exact .pure fun v hv => Option.some.inj hv ▸ hitems item hitem
  | false => exact .pure fun _ hv => nomatch hv

theorem find (hlist : Stepwise A list A.value) (hcondition : Stepwise A condition A.value) :
    Stepwise A (applyAccepted .find [list, condition]) A.value := by
  refine (hA.listArgument _ hlist).bind fun items hitems => ?_
  refine (Stepwise.findM? (fun item hitem => ?_) hitems).bind
    fun found hfound => .pure (hA.value_getD hfound)
  exact hA.holdsFor hcondition (hitems item hitem)

theorem map (hlist : Stepwise A list A.value) (hexpression : Stepwise A expression A.value) :
    Stepwise A (applyAccepted .map [list, expression]) A.value := by
  refine (hA.listArgument _ hlist).bind fun items hitems => ?_
  refine (Stepwise.mapM fun item hitem => ?_).map fun values hvalues => (hA.list values).2 hvalues.2
  exact hA.forElement hexpression (hitems item hitem)

theorem distance (hstart : Stepwise A start A.value) (hgoal : Stepwise A goal A.value) :
    Stepwise A (applyAccepted .distance [start, goal]) A.value := by
  refine (hA.locationArgument hstart).bind fun a _ => (hA.locationArgument hgoal).bind fun b _ => ?_
  split
  · exact .pure (hA.integer _)
  · exact hA.throws rfl

end

/-! ### Calls -/

theorem applyAccepted {f : Builtin} {arguments : List Meaning} (hf : A.call f arguments.length)
    (harity : f.arity.accepts arguments.length = true)
    (h : ∀ m ∈ arguments, Stepwise A m A.value) :
    Stepwise A (f.applyAccepted arguments) A.value := by
  have hnumbers := hA.integerArguments f h
  cases f with
  | branch =>
    match arguments, harity with
    | [condition, yes, no], _ =>
      simp only [List.forall_mem_cons] at h
      obtain ⟨hcondition, hyes, hno, -⟩ := h
      exact hA.branch hcondition hyes hno
  | abs =>
    obtain ⟨argument, rfl⟩ := List.length_eq_one_iff.1 (of_decide_eq_true harity)
    have hargument := List.forall_mem_singleton.1 h
    exact (hA.integerArgument _ hargument).bind fun n _ =>
      (hA.narrow _ _).map fun n _ => hA.integer n
  | min => exact hA.extreme .lt h
  | max => exact hA.extreme .gt h
  | choose =>
    match arguments, harity with
    | [list, score], _ =>
      obtain ⟨hlist, hscore⟩ := forall_mem_pair h
      exact (hA.listArgument _ hlist).bind fun items hitems => hA.chooseBest hscore hitems
  | sort =>
    match arguments, harity with
    | [list], _ => exact hA.sort (h list List.mem_cons_self)
    | [list, before], _ =>
      obtain ⟨hlist, hbefore⟩ := forall_mem_pair h
      exact hA.sortBy hlist hbefore
  | filter =>
    match arguments, harity with
    | [list, condition], _ =>
      obtain ⟨hlist, hcondition⟩ := forall_mem_pair h
      exact hA.filter hlist hcondition
  | find =>
    match arguments, harity with
    | [list, condition], _ =>
      obtain ⟨hlist, hcondition⟩ := forall_mem_pair h
      exact hA.find hlist hcondition
  | map =>
    match arguments, harity with
    | [list, expression], _ =>
      obtain ⟨hlist, hexpression⟩ := forall_mem_pair h
      exact hA.map hlist hexpression
  | sum =>
    obtain ⟨list, rfl⟩ := List.length_eq_one_iff.1 (of_decide_eq_true harity)
    have hlist := List.forall_mem_singleton.1 h
    exact (hA.listArgument _ hlist).bind fun items _ =>
      (hA.total items).map fun n _ => hA.integer n
  | head =>
    obtain ⟨list, rfl⟩ := List.length_eq_one_iff.1 (of_decide_eq_true harity)
    have hlist := List.forall_mem_singleton.1 h
    exact hlist.bind fun v hv => hA.element hv 0
  | size =>
    obtain ⟨list, rfl⟩ := List.length_eq_one_iff.1 (of_decide_eq_true harity)
    have hlist := List.forall_mem_singleton.1 h
    exact (hA.listArgument _ hlist).bind fun items _ => .pure (hA.integer _)
  | rgb => exact hnumbers.bind fun channels _ => .pure (hA.integer _)
  | transition =>
    have hfive : arguments.length = 5 := of_decide_eq_true harity
    refine hnumbers.bind fun numbers hlength => ?_
    match numbers, hlength.trans hfive with
    | [x, b, low, e, high], _ =>
      exact (hA.interpolate ⟨b, low⟩ ⟨e, high⟩ x).map fun n _ => hA.integer n
  | colorTransition =>
    refine hnumbers.bind fun numbers hlength => ?_
    match numbers with
    | x :: points => exact (hA.interpolateColor (pairUp points) x).map fun n _ => hA.integer n
    | [] =>
      rw [← hlength] at harity
      cases harity
  | loc =>
    match arguments, harity with
    | [column, row], _ =>
      obtain ⟨hcolumn, hrow⟩ := forall_mem_pair h
      exact (hA.integerArgument _ hcolumn).bind fun x _ =>
        (hA.integerArgument _ hrow).bind fun y _ => .object (hA.tile ⟨x, y⟩ hf)
  | distance =>
    match arguments, harity with
    | [start, goal], _ =>
      obtain ⟨hstart, hgoal⟩ := forall_mem_pair h
      exact hA.distance hstart hgoal

theorem apply {f : Builtin} {arguments : List Meaning} (hf : A.call f arguments.length)
    (h : ∀ m ∈ arguments, Stepwise A m A.value) : Stepwise A (f.apply arguments) A.value := by
  unfold Builtin.apply
  cases harity : f.arity.accepts arguments.length with
  | true => exact hA.applyAccepted hf harity h
  | false => exact .fail (hA.count f _ hf harity)

end Means.Closed

end Formulary
