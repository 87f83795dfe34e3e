import Formulary.Expr

/-! Precedence climbing.

A chain is a first operand and a list of links, each an infix operator with the operand
behind it; an operand is a tree under a run of prefix operators. `climb` reads a chain once
from left to right and never looks back. What it reads can be cut at a loosest operator:
`climbed_lead` where that is the leading prefix operator, `climbed_append_cons` where
it stands between operands. -/
namespace Formulary

/-! ### Chains -/

/-- The infix operators of a chain. -/
inductive Joint where
  | member
  | binary (op : BinaryOp)
  deriving DecidableEq, Repr

namespace Joint

def spelling : Joint → String
  | member => "."
  | binary op => op.symbol

def strength (j : Joint) : Nat :=
  (precedence? j.spelling).getD 255

def apply : Joint → Expr → Expr → Expr
  | member, left, right => .member left right
  | binary op, left, right => .binary op left right

/-- How tightly the operators in the right operand have to bind. -/
def level (j : Joint) : Nat :=
  if groupsRight j.spelling then j.strength else j.strength + 1

theorem strength_le_level (j : Joint) : j.strength ≤ j.level := by
  unfold level
  split
  · exact Nat.le_refl _
  · exact Nat.le_succ _

theorem groupsRight_iff (j : Joint) : groupsRight j.spelling = true ↔ j.strength = 10 := by
  cases j with
  | member => decide
  | binary op => cases op <;> decide

/-- The operators of a band group to the same side. -/
theorem groupsRight_eq {j k : Joint} (h : j.strength = k.strength) :
    groupsRight j.spelling = groupsRight k.spelling := by
  rw [Bool.eq_iff_iff, groupsRight_iff, groupsRight_iff, h]

theorem level_of_groupsRight {j : Joint} (h : groupsRight j.spelling = true) :
    j.level = j.strength :=
  if_pos h

theorem level_of_not_groupsRight {j : Joint} (h : groupsRight j.spelling = false) :
    j.level = j.strength + 1 :=
  if_neg (by simp [h])

end Joint

def UnaryOp.strength (u : UnaryOp) : Nat :=
  (precedence? u.symbol).getD 255

/-- An infix operator and the operand behind it. -/
structure Link where
  joint : Joint
  prefixes : List UnaryOp
  tree : Expr

/-! ### Climbing -/

/-- Read a chain as far as its infix operators bind at least as tightly as `m`: the tree
read, and the links left. Without prefix operators, `left` is the tree read so far. -/
def climb (m : Nat) (prefixes : List UnaryOp) (left : Expr) (links : List Link) :
    { r : Expr × List Link // r.2 <:+ links } :=
  match prefixes, links with
  | u :: prefixes, links =>
    let operand := climb (max m (u.strength + 1)) prefixes left links
    have := operand.2.length_le
    let r := climb m [] (.unary u operand.1.1) operand.1.2
    ⟨r.1, r.2.trans operand.2⟩
  | [], [] => ⟨(left, []), List.suffix_refl []⟩
  | [], link :: links =>
    if m ≤ link.joint.strength then
      let right := climb link.joint.level link.prefixes link.tree links
      have := right.2.length_le
      let r := climb m [] (link.joint.apply left right.1.1) right.1.2
      ⟨r.1, (r.2.trans right.2).trans (List.suffix_cons link links)⟩
    else ⟨(left, link :: links), List.suffix_refl _⟩
termination_by (links.length, prefixes.length)
decreasing_by
  · exact Prod.Lex.right _ (Nat.lt_succ_self _)
  · exact Prod.Lex.right' _ this (Nat.succ_pos _)
  · exact Prod.Lex.left _ _ (Nat.lt_succ_self _)
  · exact Prod.Lex.left _ _ (Nat.lt_succ_of_le this)

/-- The tree climbed to. -/
def climbed (m : Nat) (prefixes : List UnaryOp) (left : Expr) (links : List Link) : Expr :=
  (climb m prefixes left links).1.1

/-- The links left behind it. -/
def unclimbed (m : Nat) (prefixes : List UnaryOp) (left : Expr) (links : List Link) : List Link :=
  (climb m prefixes left links).1.2

section
variable {m k : Nat} {prefixes : List UnaryOp} {left : Expr} {link : Link}
  {links before behind : List Link}

theorem climb_nil (m : Nat) (left : Expr) : (climb m [] left []).1 = (left, []) := by
  rw [climb]

theorem climb_stop (h : link.joint.strength < m) (left : Expr) (links : List Link) :
    (climb m [] left (link :: links)).1 = (left, link :: links) := by
  rw [climb, if_neg (Nat.not_le.2 h)]

theorem climb_step (h : m ≤ link.joint.strength) (left : Expr) (links : List Link) :
    (climb m [] left (link :: links)).1 =
      (climb m [] (link.joint.apply left (climbed link.joint.level link.prefixes link.tree links))
        (unclimbed link.joint.level link.prefixes link.tree links)).1 := by
  rw [climb, if_pos h]
  rfl

theorem climb_lead (m : Nat) (u : UnaryOp) (prefixes : List UnaryOp) (left : Expr)
    (links : List Link) :
    (climb m (u :: prefixes) left links).1 =
      (climb m [] (.unary u (climbed (max m (u.strength + 1)) prefixes left links))
        (unclimbed (max m (u.strength + 1)) prefixes left links)).1 := by
  rw [climb]
  rfl

theorem unclimbed_subset (m : Nat) (prefixes : List UnaryOp) (left : Expr) (links : List Link) :
    unclimbed m prefixes left links ⊆ links :=
  (climb m prefixes left links).2.subset

/-- Induction along the climb. -/
theorem climb_induction {motive : Nat → List UnaryOp → Expr → List Link → Prop}
    (finish : ∀ m left, motive m [] left [])
    (stop : ∀ m left link links, link.joint.strength < m → motive m [] left (link :: links))
    (step : ∀ m left link links, m ≤ link.joint.strength →
      motive link.joint.level link.prefixes link.tree links →
      motive m [] (link.joint.apply left (climbed link.joint.level link.prefixes link.tree links))
        (unclimbed link.joint.level link.prefixes link.tree links) →
      motive m [] left (link :: links))
    (lead : ∀ m u prefixes left links,
      motive (max m (u.strength + 1)) prefixes left links →
      motive m [] (.unary u (climbed (max m (u.strength + 1)) prefixes left links))
        (unclimbed (max m (u.strength + 1)) prefixes left links) →
      motive m (u :: prefixes) left links)
    (m : Nat) (prefixes : List UnaryOp) (left : Expr) (links : List Link) :
    motive m prefixes left links := by
  induction m, prefixes, left, links using climb.induct with
  | case1 m left u prefixes links _ _ hin _ hout => exact lead m u prefixes left links hin hout
  | case2 m left => exact finish m left
  | case3 m left link links hm _ _ hin _ hout => exact step m left link links hm hin hout
  | case4 m left link links hm => exact stop m left link links (Nat.not_le.1 hm)

/-! ### Where a climb stops -/

/-- A climb stops at an operator only if it is too loose. -/
theorem strength_lt_of_unclimbed (h : unclimbed m prefixes left links = link :: behind) :
    link.joint.strength < m := by
  induction m, prefixes, left, links using climb_induction with
  | finish m left => simp [unclimbed, climb_nil] at h
  | stop m left link' links hm =>
    rw [unclimbed, climb_stop hm] at h
    obtain ⟨rfl, -⟩ := List.cons.inj h
    exact hm
  | step m left link' links hm _ ih =>
    rw [unclimbed, climb_step hm] at h
    exact ih h
  | lead m u prefixes left links _ ih =>
    rw [unclimbed, climb_lead] at h
    exact ih h

theorem unclimbed_eq_nil (h : ∀ link ∈ links, m ≤ link.joint.strength) :
    unclimbed m prefixes left links = [] := by
  cases hrest : unclimbed m prefixes left links with
  | nil => rfl
  | cons link behind =>
    have hmem : link ∈ links :=
      unclimbed_subset m prefixes left links (hrest ▸ List.mem_cons_self)
    exact absurd (h link hmem) (Nat.not_le.2 (strength_lt_of_unclimbed hrest))

/-- Only which operators of the chain are too loose matters. -/
theorem climb_congr (h : ∀ link ∈ links, m ≤ link.joint.strength ↔ k ≤ link.joint.strength) :
    (climb m prefixes left links).1 = (climb k prefixes left links).1 := by
  induction m, prefixes, left, links using climb_induction generalizing k with
  | finish m left => rw [climb_nil, climb_nil]
  | stop m left link links hm =>
    have hk : link.joint.strength < k := by
      rw [← Nat.not_le, ← h link List.mem_cons_self]
      exact Nat.not_le.2 hm
    rw [climb_stop hm, climb_stop hk]
  | step m left link links hm _ ih =>
    rw [climb_step hm, climb_step ((h link List.mem_cons_self).1 hm)]
    exact ih fun l hl => h l (List.mem_cons_of_mem _ (unclimbed_subset _ _ _ _ hl))
  | lead m u prefixes left links ihin ihout =>
    have hin : (climb (max m (u.strength + 1)) prefixes left links).1 =
        (climb (max k (u.strength + 1)) prefixes left links).1 :=
      ihin fun l hl => by
        rw [Nat.max_le, Nat.max_le, h l hl]
    rw [climb_lead, climb_lead]
    rw [show climbed (max k (u.strength + 1)) prefixes left links =
        climbed (max m (u.strength + 1)) prefixes left links from congrArg Prod.fst hin.symm,
      show unclimbed (max k (u.strength + 1)) prefixes left links =
        unclimbed (max m (u.strength + 1)) prefixes left links from congrArg Prod.snd hin.symm]
    exact ihout fun l hl => h l (unclimbed_subset _ _ _ _ hl)

/-- A chain goes on unread behind an operator that is too loose. -/
theorem climb_append_of_lt (h : ∀ link ∈ behind.head?, link.joint.strength < m) :
    (climb m prefixes left (links ++ behind)).1 =
      (climbed m prefixes left links, unclimbed m prefixes left links ++ behind) := by
  induction m, prefixes, left, links using climb_induction with
  | finish m left =>
    rw [climbed, unclimbed, climb_nil]
    cases behind with
    | nil => exact climb_nil m left
    | cons link behind => exact climb_stop (h link rfl) left behind
  | stop m left link links hm =>
    rw [climbed, unclimbed, List.cons_append, climb_stop hm, climb_stop hm]
    rfl
  | step m left link links hm ihin ihout =>
    have hlt : ∀ l ∈ behind.head?, l.joint.strength < link.joint.level := fun l hl =>
      Nat.lt_of_lt_of_le (h l hl) (Nat.le_trans hm link.joint.strength_le_level)
    rw [climbed, unclimbed, List.cons_append, climb_step hm, climb_step hm, climbed, unclimbed,
      ihin hlt]
    exact ihout h
  | lead m u prefixes left links ihin ihout =>
    have hlt : ∀ l ∈ behind.head?, l.joint.strength < max m (u.strength + 1) := fun l hl =>
      Nat.lt_of_lt_of_le (h l hl) (Nat.le_max_left _ _)
    rw [climbed, unclimbed, climb_lead, climb_lead, climbed, unclimbed, ihin hlt]
    exact ihout h

theorem climbed_append_of_lt (h : ∀ link ∈ behind.head?, link.joint.strength < m) :
    climbed m prefixes left (links ++ behind) = climbed m prefixes left links := by
  rw [climbed, climb_append_of_lt h]

theorem unclimbed_append_of_lt (h : ∀ link ∈ behind.head?, link.joint.strength < m) :
    unclimbed m prefixes left (links ++ behind) = unclimbed m prefixes left links ++ behind := by
  rw [unclimbed, climb_append_of_lt h]

/-! ### Cutting a chain -/

/-- Behind operators that bind tighter, a climb goes on with all of them read. -/
theorem climb_append (hall : ∀ link ∈ links, m ≤ link.joint.strength)
    (h : ∀ next ∈ behind.head?, (∀ link ∈ links, next.joint.strength < link.joint.level) ∧
      ∀ u ∈ prefixes.head?, next.joint.strength ≤ u.strength) :
    (climb m prefixes left (links ++ behind)).1 =
      (climb m [] (climbed m prefixes left links) behind).1 := by
  induction m, prefixes, left, links using climb_induction with
  | finish m left => rw [climbed, climb_nil]; rfl
  | stop m left link links hm => exact absurd (hall link List.mem_cons_self) (Nat.not_le.2 hm)
  | step m left link links hm _ ih =>
    have hlt : ∀ next ∈ behind.head?, next.joint.strength < link.joint.level :=
      fun next hn => (h next hn).1 link List.mem_cons_self
    have hsub := unclimbed_subset link.joint.level link.prefixes link.tree links
    rw [List.cons_append, climb_step hm, climbed_append_of_lt hlt, unclimbed_append_of_lt hlt,
      show climbed m [] left (link :: links) = _ from congrArg Prod.fst (climb_step hm left links)]
    refine ih (fun l hl => hall l (List.mem_cons_of_mem _ (hsub hl))) fun next hn => ⟨?_, ?_⟩
    · exact fun l hl => (h next hn).1 l (List.mem_cons_of_mem _ (hsub hl))
    · exact fun u hu => nomatch hu
  | lead m u prefixes left links _ ih =>
    have hlt : ∀ next ∈ behind.head?, next.joint.strength < max m (u.strength + 1) :=
      fun next hn => Nat.lt_of_le_of_lt ((h next hn).2 u rfl)
        (Nat.lt_of_lt_of_le (Nat.lt_succ_self _) (Nat.le_max_right _ _))
    have hsub := unclimbed_subset (max m (u.strength + 1)) prefixes left links
    rw [climb_lead, climbed_append_of_lt hlt, unclimbed_append_of_lt hlt,
      show climbed m (u :: prefixes) left links = _ from
        congrArg Prod.fst (climb_lead m u prefixes left links)]
    refine ih (fun l hl => hall l (hsub hl)) fun next hn => ⟨?_, ?_⟩
    · exact fun l hl => (h next hn).1 l (hsub hl)
    · exact fun u hu => nomatch hu

/-- A chain without a too loose operator is read to its end, from wherever the climb starts. -/
theorem climb_eq_climbed_zero (h : ∀ link ∈ links, m ≤ link.joint.strength) :
    (climb m prefixes left links).1 = (climbed 0 prefixes left links, []) := by
  have hcongr : (climb m prefixes left links).1 = (climb 0 prefixes left links).1 :=
    climb_congr fun link hl => by simp [h link hl]
  have hnil : unclimbed 0 prefixes left links = [] := unclimbed_eq_nil fun _ _ => Nat.zero_le _
  rw [hcongr, ← hnil]
  rfl

/-- A leading prefix operator looser than all infix operators applies to the whole chain
behind it. -/
theorem climbed_lead {u : UnaryOp} (h : ∀ link ∈ links, u.strength < link.joint.strength) :
    climbed 0 (u :: prefixes) left links = .unary u (climbed 0 prefixes left links) := by
  have hin : (climb (max 0 (u.strength + 1)) prefixes left links).1 =
      (climbed 0 prefixes left links, []) :=
    climb_eq_climbed_zero fun link hl => by
      rw [Nat.zero_max]
      exact h link hl
  rw [climbed, climb_lead, climbed, unclimbed, hin, climb_nil]

/-- The operators before `j` bind tighter, or as loosely in a band that groups to the left;
those behind it bind tighter, or as loosely in a band that groups to the right. -/
def LoosestAt (before : List Link) (j : Joint) (behind : List Link) : Prop :=
  (∀ link ∈ before, j.strength < link.joint.strength ∨
    j.strength = link.joint.strength ∧ groupsRight j.spelling = false) ∧
  (∀ link ∈ behind, j.strength < link.joint.strength ∨
    j.strength = link.joint.strength ∧ groupsRight link.joint.spelling = true)

/-- A chain without a looser leading prefix operator is read as the two sides of the infix
operator that is loosest in it. -/
theorem climbed_append_cons (h : LoosestAt before link.joint behind)
    (hlead : ∀ u ∈ prefixes.head?, link.joint.strength ≤ u.strength) :
    climbed 0 prefixes left (before ++ link :: behind) =
      link.joint.apply (climbed 0 prefixes left before)
        (climbed 0 link.prefixes link.tree behind) := by
  have hbefore : ∀ l ∈ before, link.joint.strength < l.joint.level := by
    intro l hl
    rcases h.1 l hl with hlt | ⟨heq, hleft⟩
    · exact Nat.lt_of_lt_of_le hlt l.joint.strength_le_level
    · rw [Joint.level_of_not_groupsRight (Joint.groupsRight_eq heq ▸ hleft), heq]
      exact Nat.lt_succ_self _
  have hbehind : ∀ l ∈ behind, link.joint.level ≤ l.joint.strength := by
    intro l hl
    rcases h.2 l hl with hlt | ⟨heq, hright⟩
    · unfold Joint.level
      split <;> omega
    · rw [Joint.level_of_groupsRight (Joint.groupsRight_eq heq ▸ hright)]
      exact Nat.le_of_eq heq
  have hright : (climb link.joint.level link.prefixes link.tree behind).1 = _ :=
    climb_eq_climbed_zero hbehind
  have hnext : ∀ next ∈ (link :: behind).head?,
      (∀ l ∈ before, next.joint.strength < l.joint.level) ∧
        ∀ u ∈ prefixes.head?, next.joint.strength ≤ u.strength := by
    intro next hn
    obtain rfl := Option.some.inj hn
    exact ⟨hbefore, hlead⟩
  rw [climbed, climb_append (fun _ _ => Nat.zero_le _) hnext, climb_step (Nat.zero_le _),
    show climbed link.joint.level link.prefixes link.tree behind = _ from
      congrArg Prod.fst hright,
    show unclimbed link.joint.level link.prefixes link.tree behind = _ from
      congrArg Prod.snd hright,
    climb_nil]

/-! ### Chains of one band -/

/-- An operand alone, under its prefix operators. -/
theorem climbed_no_links (m : Nat) (prefixes : List UnaryOp) (left : Expr) :
    climbed m prefixes left [] = prefixes.foldr .unary left := by
  induction prefixes generalizing m with
  | nil => rw [climbed, climb_nil]; rfl
  | cons u prefixes ih =>
    have hnil : unclimbed (max m (u.strength + 1)) prefixes left [] = [] :=
      unclimbed_eq_nil fun _ hl => absurd hl List.not_mem_nil
    rw [climbed, climb_lead, hnil, climb_nil, ih]
    rfl

/-- The tree of a chain whose operators group to the left. -/
def leftGrouped (left : Expr) (links : List Link) : Expr :=
  links.foldl (fun tree link => link.joint.apply tree (link.prefixes.foldr .unary link.tree)) left

/-- The tree of a chain whose operators group to the right. -/
def rightGrouped (left : Expr) : List Link → Expr
  | [] => left
  | link :: links =>
    link.joint.apply left (link.prefixes.foldr .unary (rightGrouped link.tree links))

theorem climbed_of_band_left {band : Nat} (h : ∀ link ∈ links, link.joint.strength = band)
    (hband : band ≠ 10) : climbed 0 [] left links = leftGrouped left links := by
  induction links generalizing left with
  | nil => exact climbed_no_links 0 [] left
  | cons link links ih =>
    have hlt : ∀ next ∈ links.head?, next.joint.strength < link.joint.level := by
      intro next hn
      have hlink := h link List.mem_cons_self
      have hleft : groupsRight link.joint.spelling = false := by
        rw [← Bool.not_eq_true, Joint.groupsRight_iff, hlink]
        exact hband
      rw [Joint.level_of_not_groupsRight hleft, hlink,
        h next (List.mem_cons_of_mem _ (List.mem_of_mem_head? hn))]
      exact Nat.lt_succ_self _
    -- The right operand ends before the next link: its climb reads no link at all.
    have htree : climbed link.joint.level link.prefixes link.tree ([] ++ links) =
        link.prefixes.foldr .unary link.tree := by
      rw [climbed_append_of_lt hlt, climbed_no_links]
    have hrest : unclimbed link.joint.level link.prefixes link.tree ([] ++ links) = links := by
      rw [unclimbed_append_of_lt hlt, unclimbed_eq_nil fun _ hl => absurd hl List.not_mem_nil]
      rfl
    rw [List.nil_append] at htree hrest
    rw [climbed, climb_step (Nat.zero_le _), htree, hrest]
    exact ih fun l hl => h l (List.mem_cons_of_mem _ hl)

/-- Prefix operators looser than the climb apply to all that it reads. -/
theorem climbed_foldr (hlead : ∀ u ∈ prefixes, u.strength < m)
    (h : ∀ link ∈ links, m ≤ link.joint.strength) :
    climbed m prefixes left links = prefixes.foldr .unary (climbed m [] left links) := by
  induction prefixes with
  | nil => rfl
  | cons u prefixes ih =>
    rw [climbed, climb_lead, Nat.max_eq_left (hlead u List.mem_cons_self),
      unclimbed_eq_nil h, climb_nil, ih fun v hv => hlead v (List.mem_cons_of_mem _ hv)]
    rfl

theorem UnaryOp.strength_lt_ten (u : UnaryOp) : u.strength < 10 := by
  cases u <;> decide

theorem climbed_of_band_right (h : ∀ link ∈ links, link.joint.strength = 10) :
    climbed 0 [] left links = rightGrouped left links := by
  have hall : ∀ link ∈ links, 10 ≤ link.joint.strength := fun link hl =>
    Nat.le_of_eq (h link hl).symm
  -- Climbing from `^` on, the climb is the same at every step.
  have hzero : climbed 10 [] left links = climbed 0 [] left links := by
    rw [climbed, climb_eq_climbed_zero hall]
  rw [← hzero]
  clear hall hzero
  induction links generalizing left with
  | nil => exact climbed_no_links _ [] left
  | cons link links ih =>
    have hlink := h link List.mem_cons_self
    have hall : ∀ l ∈ links, 10 ≤ l.joint.strength := fun l hl =>
      Nat.le_of_eq (h l (List.mem_cons_of_mem _ hl)).symm
    have hlevel : link.joint.level = 10 := by
      rw [Joint.level_of_groupsRight (link.joint.groupsRight_iff.2 hlink), hlink]
    rw [climbed, climb_step (Nat.le_of_eq hlink.symm), hlevel, unclimbed_eq_nil hall, climb_nil,
      climbed_foldr (fun u _ => u.strength_lt_ten) hall,
      ih fun l hl => h l (List.mem_cons_of_mem _ hl)]
    rfl

end

end Formulary
