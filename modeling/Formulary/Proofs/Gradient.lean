import Formulary.Proofs.Color
import Mathlib.Data.List.Chain
import Mathlib.Data.List.Infix
import Mathlib.Data.List.Nodup

/-! Colors along a line of points.

Where the points ascend no point lies inside a segment, so two segments that hold the same value
are one, or meet there (`Ascending.same_or_meet`). Where they meet each of them has the color of
the point, so the color of a value is that of any segment that holds it, though the first is
taken (`interpolateColor_eq`). -/
namespace Formulary

/-! ### Neighbours -/

/-- The positions are strictly increasing. -/
def Ascending (points : List Point) : Prop :=
  points.Pairwise fun p q => p.position < q.position

instance (points : List Point) : Decidable (Ascending points) :=
  inferInstanceAs (Decidable (points.Pairwise _))

section
variable {points : List Point} {a b c d p q : Point} {x : Int64}

/-- The segments are the pairs of neighbours. -/
theorem mem_segments_iff : (a, b) ∈ segments points ↔ [a, b] <:+: points := by
  induction points with
  | nil => simp [segments]
  | cons p rest ih =>
    cases rest with
    | nil => simp [segments, List.infix_cons_iff]
    | cons q rest =>
      have hsegments : segments (p :: q :: rest) = (p, q) :: segments (q :: rest) := rfl
      have hinfix : [a, b] <:+: p :: q :: rest ↔ [a, b] <+: p :: q :: rest ∨ [a, b] <:+: q :: rest :=
        List.infix_cons_iff
      rw [hsegments, List.mem_cons, ih, hinfix]
      simp [List.cons_prefix_cons]

/-- It is enough that neighbours ascend. -/
theorem ascending_iff :
    Ascending points ↔ ∀ a b, [a, b] <:+: points → a.position < b.position := by
  have htrans : IsTrans Point fun p q => p.position < q.position :=
    ⟨fun _ _ _ => Int64.lt_trans⟩
  rw [Ascending, ← List.isChain_iff_pairwise, List.isChain_iff_forall_rel_of_append_cons_cons]
  constructor
  · rintro h a b ⟨before, behind, rfl⟩
    exact h (List.append_assoc before [a, b] behind)
  · rintro h a b before behind rfl
    exact h a b ⟨before, behind, by simp⟩

/-- No point lies between neighbours. -/
theorem Ascending.not_between (h : Ascending points) (hab : [a, b] <:+: points)
    (hp : p ∈ points) : p.position ≤ a.position ∨ b.position ≤ p.position := by
  obtain ⟨before, behind, rfl⟩ := hab
  obtain ⟨hleft, -, hbehind⟩ := List.pairwise_append.1 h
  obtain ⟨-, -, hneighbours⟩ := List.pairwise_append.1 hleft
  rcases List.mem_append.1 hp with hp | hp
  · rcases List.mem_append.1 hp with hp | hp
    · exact .inl (Int64.le_of_lt (hneighbours p hp a (by simp)))
    · rcases List.mem_pair.1 hp with rfl | rfl
      · exact .inl (Int64.le_refl _)
      · exact .inr (Int64.le_refl _)
  · exact .inr (Int64.le_of_lt (hbehind b (by simp) p hp))

theorem Ascending.eq_of_position (h : Ascending points) (hp : p ∈ points) (hq : q ∈ points)
    (heq : p.position = q.position) : p = q := by
  have hnodup : (points.map Point.position).Nodup :=
    List.pairwise_map.2 (h.imp Int64.ne_of_lt)
  exact List.inj_on_of_nodup_map hnodup hp hq heq

/-- Segments that hold the same value are one, or meet there. -/
theorem Ascending.same_or_meet (h : Ascending points) (hab : [a, b] <:+: points)
    (hcd : [c, d] <:+: points) (ha : a.position ≤ x) (hb : x ≤ b.position)
    (hc : c.position ≤ x) (hd : x ≤ d.position) :
    (a = c ∧ b = d) ∨ (b = c ∧ x = c.position) ∨ (d = a ∧ x = a.position) := by
  obtain ⟨hamem, hbmem⟩ : a ∈ points ∧ b ∈ points :=
    ⟨hab.subset (by simp), hab.subset (by simp)⟩
  obtain ⟨hcmem, hdmem⟩ : c ∈ points ∧ d ∈ points :=
    ⟨hcd.subset (by simp), hcd.subset (by simp)⟩
  rcases h.not_between hab hcmem with hca | hbc
  case inr =>
    have hmeet : b.position = c.position :=
      Int64.le_antisymm hbc (Int64.le_trans hc hb)
    exact .inr (.inl ⟨h.eq_of_position hbmem hcmem hmeet,
      Int64.le_antisymm (hmeet ▸ hb) hc⟩)
  rcases h.not_between hcd hamem with hac | hda
  case inr =>
    have hmeet : d.position = a.position :=
      Int64.le_antisymm hda (Int64.le_trans ha hd)
    exact .inr (.inr ⟨h.eq_of_position hdmem hamem hmeet,
      Int64.le_antisymm (hmeet ▸ hd) ha⟩)
  obtain rfl := h.eq_of_position hamem hcmem (Int64.le_antisymm hac hca)
  have hlt := ascending_iff.1 h a b hab
  have hlt' := ascending_iff.1 h a d hcd
  have hdb := (h.not_between hcd hbmem).resolve_left (Int64.not_le.2 hlt)
  have hbd := (h.not_between hab hdmem).resolve_left (Int64.not_le.2 hlt')
  exact .inl ⟨rfl, h.eq_of_position hbmem hdmem (Int64.le_antisymm hbd hdb)⟩

/-- One of several points has a neighbour. -/
theorem exists_neighbour (hlength : 2 ≤ points.length) (hp : p ∈ points) :
    ∃ q, [p, q] <:+: points ∨ [q, p] <:+: points := by
  obtain ⟨before, behind, rfl⟩ := List.append_of_mem hp
  cases behind with
  | cons q behind => exact ⟨q, .inl ⟨before, behind, by simp⟩⟩
  | nil =>
    rcases List.eq_nil_or_concat before with rfl | ⟨before, q, rfl⟩
    · simp at hlength
    · exact ⟨q, .inr ⟨before, [], by simp⟩⟩

theorem Ascending.head_le (h : Ascending points) (hp : points.head? = some p) (hq : q ∈ points) :
    p.position ≤ q.position := by
  obtain ⟨rest, rfl⟩ := List.head?_eq_some_iff.1 hp
  rcases List.mem_cons.1 hq with rfl | hq
  · exact Int64.le_refl _
  · exact Int64.le_of_lt ((List.pairwise_cons.1 h).1 q hq)

theorem Ascending.le_getLast (h : Ascending points) (hp : points.getLast? = some p)
    (hq : q ∈ points) : q.position ≤ p.position := by
  obtain ⟨before, rfl⟩ := List.getLast?_eq_some_iff.1 hp
  rcases List.mem_append.1 hq with hq | hq
  · exact Int64.le_of_lt ((List.pairwise_append.1 h).2.2 q hq p (by simp))
  · exact List.mem_singleton.1 hq ▸ Int64.le_refl _

end

/-! ### Colors of a line -/

section
variable {points : List Point} {a b p : Point} {x : Int64}

/-- Where the points do not ascend, two neighbours show it. -/
theorem any_descends_iff : ((segments points).any fun s =>
    s.2.position.toInt ≤ s.1.position.toInt) = true ↔ ¬ Ascending points := by
  rw [ascending_iff, List.any_eq_true]
  constructor
  · rintro ⟨⟨a, b⟩, hab, hle⟩ h
    exact absurd (h a b (mem_segments_iff.1 hab))
      (Int64.not_lt.2 (Int64.le_iff_toInt_le.2 (of_decide_eq_true hle)))
  · intro h
    by_contra hnone
    refine h fun a b hab => Int64.not_le.1 fun hle => hnone ?_
    exact ⟨(a, b), mem_segments_iff.2 hab, decide_eq_true (Int64.le_iff_toInt_le.1 hle)⟩

theorem interpolateColor_of_not_ascending (h : ¬ Ascending points) (x : Int64) :
    interpolateColor points x = throw .boundariesNotIncreasing := by
  unfold interpolateColor
  exact if_pos (any_descends_iff.2 h)

/-- The value lies on the segment. -/
def onSegment (x : Int64) (s : Point × Point) : Bool :=
  s.1.position.toInt ≤ x.toInt && x.toInt ≤ s.2.position.toInt

theorem onSegment_iff : onSegment x (a, b) = true ↔ a.position ≤ x ∧ x ≤ b.position := by
  simp [onSegment, Int64.le_iff_toInt_le]

/-- The first segment that holds the value decides. -/
theorem interpolateColor_of_find (h : Ascending points)
    (hfind : (segments points).find? (onSegment x) = some (a, b)) :
    interpolateColor points x = segmentColor a b x := by
  unfold interpolateColor
  refine (if_neg fun hany => any_descends_iff.1 hany h).trans ?_
  dsimp only
  split
  · next hnone => exact nomatch hnone.symm.trans hfind
  · next hsome =>
    obtain ⟨rfl, rfl⟩ := Prod.mk.inj (Option.some.inj (hsome.symm.trans hfind))
    rfl

theorem interpolateColor_of_find_none (h : Ascending points)
    (hfind : (segments points).find? (onSegment x) = none) : interpolateColor points x = pure 0 := by
  unfold interpolateColor
  refine (if_neg fun hany => any_descends_iff.1 hany h).trans ?_
  dsimp only
  split
  · rfl
  · next hsome => exact nomatch hsome.symm.trans hfind

/-- Every point has a color. -/
def Colored (points : List Point) : Prop :=
  ∀ p ∈ points, ∃ c : Color, p.level.toInt = c.code

theorem Ascending.segmentColor_lower (h : Ascending points) (hcolored : Colored points)
    (hab : [a, b] <:+: points) : segmentColor a b a.position = pure a.level := by
  obtain ⟨first, ha⟩ := hcolored a (hab.subset (by simp))
  obtain ⟨second, hb⟩ := hcolored b (hab.subset (by simp))
  exact Formulary.segmentColor_lower ha hb (Int64.le_of_lt (ascending_iff.1 h a b hab))

theorem Ascending.segmentColor_upper (h : Ascending points) (hcolored : Colored points)
    (hab : [a, b] <:+: points) : segmentColor a b b.position = pure b.level := by
  obtain ⟨first, ha⟩ := hcolored a (hab.subset (by simp))
  obtain ⟨second, hb⟩ := hcolored b (hab.subset (by simp))
  exact Formulary.segmentColor_upper ha hb (ascending_iff.1 h a b hab)

/-- The color of a value is that of any segment that holds it. -/
theorem interpolateColor_eq (h : Ascending points) (hcolored : Colored points)
    (hab : [a, b] <:+: points) (ha : a.position ≤ x) (hb : x ≤ b.position) :
    interpolateColor points x = segmentColor a b x := by
  have hfound : ((segments points).find? (onSegment x)).isSome = true :=
    List.find?_isSome.2 ⟨(a, b), mem_segments_iff.2 hab, onSegment_iff.2 ⟨ha, hb⟩⟩
  obtain ⟨⟨c, d⟩, hfind⟩ := Option.isSome_iff_exists.1 hfound
  have hcd := mem_segments_iff.1 (List.mem_of_find?_eq_some hfind)
  obtain ⟨hc, hd⟩ := onSegment_iff.1 (List.find?_some hfind)
  rw [interpolateColor_of_find h hfind]
  rcases h.same_or_meet hab hcd ha hb hc hd with ⟨rfl, rfl⟩ | ⟨rfl, rfl⟩ | ⟨rfl, rfl⟩
  · rfl
  · rw [h.segmentColor_lower hcolored hcd, h.segmentColor_upper hcolored hab]
  · rw [h.segmentColor_upper hcolored hcd, h.segmentColor_lower hcolored hab]

theorem interpolateColor_at (h : Ascending points) (hcolored : Colored points)
    (hlength : 2 ≤ points.length) (hp : p ∈ points) :
    interpolateColor points p.position = pure p.level := by
  obtain ⟨q, hpq | hqp⟩ := exists_neighbour hlength hp
  · have hlt := ascending_iff.1 h p q hpq
    rw [interpolateColor_eq h hcolored hpq (Int64.le_refl _) (Int64.le_of_lt hlt),
      h.segmentColor_lower hcolored hpq]
  · have hlt := ascending_iff.1 h q p hqp
    rw [interpolateColor_eq h hcolored hqp (Int64.le_of_lt hlt) (Int64.le_refl _),
      h.segmentColor_upper hcolored hqp]

/-- No segment holds a value before the first point, or behind the last. -/
theorem interpolateColor_outside (h : Ascending points)
    (hout : (∀ q ∈ points, x < q.position) ∨ ∀ q ∈ points, q.position < x) :
    interpolateColor points x = pure 0 := by
  refine interpolateColor_of_find_none h (List.find?_eq_none.2 ?_)
  rintro ⟨a, b⟩ hab hinside
  obtain ⟨ha, hb⟩ := onSegment_iff.1 hinside
  have hab := mem_segments_iff.1 hab
  rcases hout with hout | hout
  · exact absurd (hout a (hab.subset (by simp))) (Int64.not_lt.2 ha)
  · exact absurd (hout b (hab.subset (by simp))) (Int64.not_lt.2 hb)

/-! ### Calls of color_transition -/

/-- The numbers that a transition of colors is called with. -/
def colorNumbers (points : List Point) (x : Int64) : List Int64 :=
  x :: points.flatMap fun p => [p.position, p.level]

theorem pairUp_numbers (points : List Point) :
    pairUp (points.flatMap fun p => [p.position, p.level]) = points := by
  induction points with
  | nil => rfl
  | cons p points ih => exact congrArg (p :: ·) ih

theorem length_numbers (points : List Point) :
    (points.flatMap fun p => [p.position, p.level]).length = 2 * points.length := by
  induction points with
  | nil => rfl
  | cons p points ih =>
    simp only [List.flatMap_cons, List.length_append, List.length_cons, List.length_nil, ih]
    omega

end

namespace Expr

variable {points : List Point} {x : Int64} {arguments : List Expr} {scope : Scope} {w w' : World}

theorem run_colorTransition (hlength : 2 ≤ points.length)
    (h : (arguments.mapM (eval · scope)).run.run w =
      (.ok ((colorNumbers points x).map .integer), w')) :
    ((call .colorTransition arguments).eval scope).run.run w =
      (.integer <$> interpolateColor points x : Run Value).run.run w' := by
  have hcount : (meanings arguments).length = 2 * points.length + 1 := by
    rw [meanings_eq_map, List.length_map, ← Run.length_of_mapM h, List.length_map, colorNumbers,
      List.length_cons, length_numbers]
  have haccepts : Builtin.colorTransition.arity.accepts (meanings arguments).length = true := by
    rw [hcount]
    simp only [Builtin.arity, Arity.accepts, Bool.and_eq_true, decide_eq_true_eq]
    omega
  have hcall : (call .colorTransition arguments).eval scope =
      ((meanings arguments).mapM fun m => Builtin.colorTransition.integerArgument m scope) >>= _ :=
    if_pos haccepts
  rw [hcall, Run.run_bind, Builtin.run_integerArguments _ h]
  show (Value.integer <$> interpolateColor (pairUp _) x : Run Value).run.run w' = _
  rw [pairUp_numbers]

/-- **A transition of colors is three transitions.** On a line of two or more points whose
positions ascend and whose levels are colors, the color of a value is `rgb` of the transitions of
the channels, on each segment that holds the value, and with the same error where one overflows.
So it is in each channel between the colors of the segment, at a point it is the color of the
point, and outside the line it is 0. If the positions do not ascend, every value is refused. -/
theorem eval_colorTransition (hlength : 2 ≤ points.length)
    (h : (arguments.mapM (eval · scope)).run.run w =
      (.ok ((colorNumbers points x).map .integer), w')) :
    let outcome := (((call .colorTransition arguments).eval scope).run.run w).1
    (¬ Ascending points → outcome = .error .boundariesNotIncreasing) ∧
      (Ascending points → (∀ p ∈ points, 0 ≤ p.level.toInt ∧ p.level.toInt ≤ 999999) →
        (∀ a b, [a, b] <:+: points → a.position ≤ x → x ≤ b.position →
          ∃ first second : Color, a.level.toInt = first.code ∧ b.level.toInt = second.code ∧
            (∀ scope' u, outcome = (((rgbOfTransitions a.position b.position first second x).eval
              scope').run.run u).1) ∧
            ∀ n, Gives outcome n → ∃ c : Color, n = c.code ∧ first.Between second c) ∧
        (∀ p ∈ points, x = p.position → Gives outcome p.level.toInt) ∧
        (∀ p, points.head? = some p → x < p.position → Gives outcome 0) ∧
        (∀ p, points.getLast? = some p → p.position < x → Gives outcome 0)) := by
  intro outcome
  have houtcome : outcome = ((Value.integer <$> interpolateColor points x : Run Value).run.run w').1 :=
    congrArg Prod.fst (run_colorTransition hlength h)
  have hgives {n : Int64} (hn : interpolateColor points x = pure n) : Gives outcome n.toInt :=
    ⟨n, by rw [houtcome, hn]; rfl, rfl⟩
  constructor
  · intro hnot
    rw [houtcome, interpolateColor_of_not_ascending hnot]
    rfl
  intro hasc hlevels
  have hcolored : Colored points := fun p hp => by
    obtain ⟨c, hc⟩ := Color.exists_code (hlevels p hp).1 (hlevels p hp).2
    exact ⟨c, hc.symm⟩
  refine ⟨fun a b hab ha hb => ?segment, ?point, ?before, ?behind⟩
  case segment =>
    obtain ⟨first, hfirst⟩ := hcolored a (hab.subset (by simp))
    obtain ⟨second, hsecond⟩ := hcolored b (hab.subset (by simp))
    rw [interpolateColor_eq hasc hcolored hab ha hb, segmentColor_eq hfirst hsecond] at houtcome
    refine ⟨first, second, hfirst, hsecond, fun scope' u => ?_, fun n hn => ?_⟩
    · rw [houtcome, eval_rgbOfTransitions]
      exact mixture_outcome _ _ _ _ _ _ _
    · exact between_of_gives_mixture (ascending_iff.1 hasc a b hab) ha hb (houtcome ▸ hn)
  case point =>
    rintro p hp rfl
    exact hgives (interpolateColor_at hasc hcolored hlength hp)
  case before =>
    intro p hp hlt
    exact hgives (interpolateColor_outside hasc
      (.inl fun q hq => Int64.lt_of_lt_of_le hlt (hasc.head_le hp hq)))
  case behind =>
    intro p hp hlt
    exact hgives (interpolateColor_outside hasc
      (.inr fun q hq => Int64.lt_of_le_of_lt (hasc.le_getLast hp hq) hlt))

/-- Black, white and red: in the middle of the first segment, where the two meet, behind the last
point, and with the points out of order. -/
theorem color_at_inner_boundary :
    let scope : Scope := .object .nothing
    let w := World.fresh (.ofWords fun _ => 0) fun _ _ => .ok .missing
    let black : Point := ⟨0, 0⟩
    let white : Point := ⟨2, 999999⟩
    let red : Point := ⟨4, 990000⟩
    let color := fun points x =>
      (((call .colorTransition ((colorNumbers points x).map .integer)).eval scope).run.run w).1
    (∃ c first second : Color, c.code = 494949 ∧ first.Between second c ∧
        color [black, white, red] 1 =
          (((rgbOfTransitions 0 2 first second 1).eval scope).run.run w).1) ∧
      Gives (color [black, white, red] 2) 999999 ∧
      Gives (color [black, white, red] 5) 0 ∧
      color [white, black] 1 = .error .boundariesNotIncreasing := by
  have hgray (scope : Scope) (w : World) : (((call .colorTransition
      ((colorNumbers [⟨0, 0⟩, ⟨2, 999999⟩, ⟨4, 990000⟩] 1).map .integer)).eval scope).run.run w).1 =
      .ok (.integer 494949) := rfl
  intro scope w black white red color
  have hrun (points : List Point) (x : Int64) := run_integers (colorNumbers points x) scope w
  have hasc : Ascending [black, white, red] := by decide
  have hcolors : ∀ p ∈ [black, white, red], 0 ≤ p.level.toInt ∧ p.level.toInt ≤ 999999 := by decide
  obtain ⟨hmiddle, -⟩ :=
    (eval_colorTransition (by decide) (hrun [black, white, red] 1)).2 hasc hcolors
  obtain ⟨-, hmeet, -⟩ :=
    (eval_colorTransition (by decide) (hrun [black, white, red] 2)).2 hasc hcolors
  obtain ⟨-, -, -, hbehind⟩ :=
    (eval_colorTransition (by decide) (hrun [black, white, red] 5)).2 hasc hcolors
  obtain ⟨hrefused, -⟩ := eval_colorTransition (by decide) (hrun [white, black] 1)
  obtain ⟨first, second, -, -, hrgb, hbetween⟩ :=
    hmiddle black white ⟨[], [red], rfl⟩ (by decide) (by decide)
  obtain ⟨c, hc, hchannels⟩ := hbetween 494949 ⟨494949, hgray scope w, rfl⟩
  exact ⟨⟨c, first, second, hc.symm, hchannels, hrgb scope w⟩, hmeet white (by simp) rfl,
    hbehind red rfl (by decide), hrefused (by decide)⟩

end Expr

end Formulary
