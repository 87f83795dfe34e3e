import Formulary.Proofs.Steady
import Formulary.Value.Order

/-! Laws of the natural order.

The order is partial, for objects and values of different kinds have none. `Ordered` says by
rules which comparisons succeed and how: of two lists the first elements that are not equal
decide, all before them have to be comparable, and what stands behind them does not matter.
On these rules the laws of an order are short inductions, and `order_laws` puts them together
with those of `equals` and `same`. -/
namespace Formulary.Value

/-- The comparisons that succeed. -/
inductive Ordered : Value → Value → Ordering → Prop where
  | integer (m n : Int64) : Ordered (.integer m) (.integer n) (compare m.toInt n.toInt)
  | text (s t : String) : Ordered (.text s) (.text t) (compare s t)
  | ended : Ordered (.list []) (.list []) .eq
  | shorter (b : Value) (bs : List Value) : Ordered (.list []) (.list (b :: bs)) .lt
  | longer (a : Value) (as : List Value) : Ordered (.list (a :: as)) (.list []) .gt
  | first {a b : Value} {o : Ordering} (h : Ordered a b o) (hne : o ≠ .eq) (as bs : List Value) :
      Ordered (.list (a :: as)) (.list (b :: bs)) o
  | rest {a b : Value} {as bs : List Value} {o : Ordering} (h : Ordered a b .eq)
      (hrest : Ordered (.list as) (.list bs) o) : Ordered (.list (a :: as)) (.list (b :: bs)) o

mutual

theorem ordered_of_order {a b : Value} {o : Ordering} (h : a.order b = .ok o) :
    Ordered a b o := by
  unfold order at h
  split at h
  · exact Except.ok.inj h ▸ .integer _ _
  · exact Except.ok.inj h ▸ .text _ _
  · exact ordered_of_orderItems h
  · split at h <;> cases h

theorem ordered_of_orderItems {as bs : List Value} {o : Ordering} (h : orderItems as bs = .ok o) :
    Ordered (.list as) (.list bs) o := by
  unfold orderItems at h
  split at h
  · exact Except.ok.inj h ▸ .ended
  · exact Except.ok.inj h ▸ .shorter _ _
  · exact Except.ok.inj h ▸ .longer _ _
  · split at h
    · next heq => exact .rest (ordered_of_order heq) (ordered_of_orderItems h)
    · next hne => exact .first (ordered_of_order h) (fun ho => hne (ho ▸ h)) _ _

end

theorem Ordered.order_eq {a b : Value} {o : Ordering} (h : Ordered a b o) : a.order b = .ok o := by
  induction h with
  | integer | text | ended | shorter | longer => rfl
  | @first a b o _ hne as bs ih =>
    rw [order, orderItems, ih]
    cases o <;> first | rfl | exact absurd rfl hne
  | @rest a b as bs o _ _ ih ihrest =>
    rw [order] at ihrest ⊢
    rw [orderItems, ih]
    exact ihrest

theorem order_eq_ok_iff {a b : Value} {o : Ordering} : a.order b = .ok o ↔ Ordered a b o :=
  ⟨ordered_of_order, Ordered.order_eq⟩

/-! ### The order -/

theorem Ordered.reverse {a b : Value} {o : Ordering} (h : Ordered a b o) : Ordered b a o.swap := by
  induction h with
  | integer m n =>
    rw [← Std.OrientedCmp.eq_swap]
    exact .integer n m
  | text s t =>
    rw [← Std.OrientedCmp.eq_swap]
    exact .text t s
  | ended => exact .ended
  | shorter b bs => exact .longer b bs
  | longer a as => exact .shorter a as
  | first _ hne as bs ih => exact .first ih (by simpa using hne) bs as
  | rest _ _ ih ihrest => exact .rest ih ihrest

/-- A comparison fails one way just if it fails the other, and otherwise it is reversed. -/
theorem order_swap (a b : Value) :
    (b.order a).toOption = (a.order b).toOption.map Ordering.swap := by
  cases hab : a.order b with
  | ok o => rw [(ordered_of_order hab).reverse.order_eq]; rfl
  | error e =>
    cases hba : b.order a with
    | ok o => exact nomatch hab.symm.trans (ordered_of_order hba).reverse.order_eq
    | error e' => rfl

/-- In a total order the comparison of the ends is the first one that is not equal. -/
theorem compare_eq_then {α : Type} [Ord α] [Std.TransOrd α] {a b c : α}
    (h₁ : compare a b ≠ .gt) (h₂ : compare b c ≠ .gt) :
    compare a c = (compare a b).then (compare b c) := by
  cases hab : compare a b with
  | lt => exact Std.TransCmp.lt_of_lt_of_isLE hab (Ordering.isLE_iff_ne_gt.2 h₂)
  | eq => exact Std.TransCmp.congr_left hab
  | gt => exact absurd hab h₁

/-- Comparisons that do not go down can be joined. -/
theorem Ordered.trans {a b c : Value} {o₁ o₂ : Ordering} (h₁ : Ordered a b o₁)
    (h₂ : Ordered b c o₂) (ho₁ : o₁ ≠ .gt) (ho₂ : o₂ ≠ .gt) : Ordered a c (o₁.then o₂) := by
  induction h₁ generalizing c o₂ with
  | integer m n =>
    cases h₂ with
    | integer _ p => rw [← compare_eq_then ho₁ ho₂]; exact .integer m p
  | text s t =>
    cases h₂ with
    | text _ u => rw [← compare_eq_then ho₁ ho₂]; exact .text s u
  | ended => exact h₂
  | shorter b bs =>
    cases h₂ with
    | longer => exact absurd rfl ho₂
    | first | rest => exact .shorter _ _
  | longer => exact absurd rfl ho₁
  | @first _ _ o₁ _ hne _ _ ih =>
    obtain rfl : o₁ = .lt := by cases o₁ <;> simp_all
    cases h₂ with
    | longer => exact absurd rfl ho₂
    | first h₂ => exact .first (ih h₂ ho₁ ho₂) hne _ _
    | rest h₂ => exact .first (ih h₂ ho₁ (by decide)) hne _ _
  | @rest _ _ _ _ o₁ _ _ ih ihrest =>
    cases h₂ with
    | longer => exact absurd rfl ho₂
    | first h₂ hne =>
      -- The first difference decides, and it is the second comparison that meets it.
      obtain rfl : o₂ = .lt := by cases o₂ <;> simp_all
      have hlt : o₁.then .lt = .lt := by cases o₁ <;> simp_all
      rw [hlt]
      exact .first (ih h₂ (by decide) ho₂) hne _ _
    | rest h₂ hrest => exact .rest (ih h₂ (by decide) (by decide)) (ihrest hrest ho₁ ho₂)

/-! ### Sameness -/

/-- Values that compare as equal are equal, and hold no object. -/
theorem Ordered.eq_and_plain {a b : Value} {o : Ordering} (h : Ordered a b o) (ho : o = .eq) :
    a = b ∧ a.Plain := by
  induction h with
  | integer m n =>
    have hmn : m = n := Int64.toInt_inj.1 (Std.LawfulEqOrd.eq_of_compare ho)
    exact ⟨congrArg _ hmn, .integer m⟩
  | text s t => exact ⟨congrArg _ (Std.LawfulEqOrd.eq_of_compare ho), .text s⟩
  | ended => exact ⟨rfl, .list (List.forall_mem_nil _)⟩
  | shorter | longer => cases ho
  | first _ hne => exact absurd ho hne
  | rest _ _ ih ihrest =>
    obtain ⟨rfl, ha⟩ := ih rfl
    obtain ⟨heq, hlist⟩ := ihrest ho
    obtain rfl := list.inj heq
    cases hlist with
    | list has => exact ⟨rfl, .list (List.forall_mem_cons.2 ⟨ha, has⟩)⟩

theorem ordered_of_sameItems {as bs : List Value}
    (h : ∀ a ∈ as, ∀ b, a.same b = true → Ordered a b .eq) (hsame : sameItems as bs = true) :
    Ordered (.list as) (.list bs) .eq := by
  induction as generalizing bs with
  | nil =>
    cases bs with
    | nil => exact .ended
    | cons => cases hsame
  | cons a as ih =>
    cases bs with
    | nil => cases hsame
    | cons b bs =>
      obtain ⟨hhead, hrest⟩ := Bool.and_eq_true_iff.1 hsame
      obtain ⟨ha, has⟩ := List.forall_mem_cons.1 h
      exact .rest (ha b hhead) (ih has hrest)

theorem Plain.ordered_of_same {a b : Value} (ha : a.Plain) (h : a.same b = true) :
    Ordered a b .eq := by
  induction ha generalizing b with
  | integer m =>
    cases b with
    | integer n =>
      obtain rfl : m = n := of_decide_eq_true h
      have hself : compare m.toInt m.toInt = .eq := Std.ReflCmp.compare_self
      exact hself ▸ .integer m m
    | text | list | object => cases h
  | text s =>
    cases b with
    | text t =>
      obtain rfl : s = t := of_decide_eq_true h
      have hself : compare s s = .eq := Std.ReflCmp.compare_self
      exact hself ▸ .text s s
    | integer | list | object => cases h
  | @list as _ ih =>
    cases b with
    | list bs => exact ordered_of_sameItems (fun a ha b => ih a ha) h
    | integer | text | object => cases h

mutual

theorem same_self (a : Value) : a.same a = true := by
  match a with
  | .integer _ | .text _ | .object _ _ => simp [same]
  | .list as => exact sameItems_self as

theorem sameItems_self (as : List Value) : sameItems as as = true := by
  match as with
  | [] => rfl
  | a :: as => rw [sameItems, same_self a, sameItems_self as, Bool.and_self]

end

theorem order_eq_iff {a b : Value} : a.order b = .ok .eq ↔ a.same b = true ∧ a.Plain := by
  rw [order_eq_ok_iff]
  constructor
  · intro h
    obtain ⟨rfl, ha⟩ := h.eq_and_plain rfl
    exact ⟨same_self a, ha⟩
  · exact fun ⟨h, ha⟩ => ha.ordered_of_same h

theorem length_eq_of_sameItems {as bs : List Value} (h : sameItems as bs = true) :
    as.length = bs.length := by
  induction as generalizing bs with
  | nil =>
    cases bs with
    | nil => rfl
    | cons => cases h
  | cons a as ih =>
    cases bs with
    | nil => cases h
    | cons b bs => exact congrArg Nat.succ (ih (Bool.and_eq_true_iff.1 h).2)

/-! ### Equality -/

mutual

theorem equals_eq_true_iff (a b : Value) : a.equals b = .ok true ↔ a.same b = true := by
  cases a with
  | integer m => cases b <;> simp [equals, same]
  | text s => cases b <;> simp [equals, same]
  | object i o => cases b <;> simp [equals, same]
  | list as =>
    cases b with
    | list bs =>
      rw [equals, same]
      split
      · next hlength => exact equalItems_eq_true_iff hlength
      · next hlength => simpa using fun h => hlength (length_eq_of_sameItems h)
    | integer | text | object => simp [equals, same]

theorem equalItems_eq_true_iff {as bs : List Value} (h : as.length = bs.length) :
    equalItems as bs = .ok true ↔ sameItems as bs = true := by
  match as, bs with
  | [], [] => exact iff_of_true rfl rfl
  | a :: as, b :: bs =>
    have hhead := equals_eq_true_iff a b
    have hrest := equalItems_eq_true_iff (Nat.succ.inj h)
    rw [equalItems, sameItems, Bool.and_eq_true_iff, ← hhead, ← hrest]
    cases a.equals b with
    | error e => simp
    | ok equal => cases equal <;> simp

end

mutual

/-- Equality fails one way just if it fails the other, and otherwise gives the same. -/
theorem equals_comm (a b : Value) : (b.equals a).toOption = (a.equals b).toOption := by
  cases a with
  | integer m => cases b <;> simp [equals, Except.toOption, eq_comm]
  | text s => cases b <;> simp [equals, Except.toOption, eq_comm]
  | object i o => cases b <;> simp [equals, Except.toOption, eq_comm]
  | list as =>
    cases b with
    | list bs =>
      rw [equals, equals]
      by_cases h : as.length = bs.length
      · rw [if_pos h, if_pos h.symm]
        exact equalItems_comm as bs
      · rw [if_neg h, if_neg (Ne.symm h)]
    | integer | text | object => rfl

theorem equalItems_comm (as bs : List Value) :
    (equalItems bs as).toOption = (equalItems as bs).toOption := by
  match as, bs with
  | [], [] | [], _ :: _ | _ :: _, [] => rfl
  | a :: as, b :: bs =>
    have hhead := equals_comm a b
    have hrest := equalItems_comm as bs
    rw [equalItems, equalItems]
    revert hhead
    rcases a.equals b with e | _ | _ <;> rcases b.equals a with e' | _ | _ <;>
      simp_all [Except.toOption]

end

/-- Values that compare, but not as equal, are not equal. -/
theorem Ordered.equals_eq_false {a b : Value} {o : Ordering} (h : Ordered a b o) (ho : o ≠ .eq) :
    a.equals b = .ok false := by
  induction h with
  | integer m n =>
    have hne : m ≠ n := fun hmn => ho (hmn ▸ Std.ReflCmp.compare_self)
    rw [equals, decide_eq_false hne]
  | text s t =>
    have hne : s ≠ t := fun hst => ho (hst ▸ Std.ReflCmp.compare_self)
    rw [equals, decide_eq_false hne]
  | ended => exact absurd rfl ho
  | shorter | longer => rfl
  | first _ hne as bs ih =>
    rw [equals, equalItems, ih hne]
    split <;> rfl
  | @rest a b as bs _ h _ _ ih =>
    obtain ⟨rfl, -⟩ := h.eq_and_plain rfl
    have hhead := (equals_eq_true_iff a a).2 (same_self a)
    have hrest := ih ho
    rw [equals] at hrest ⊢
    simpa [equalItems, hhead] using hrest

/-! ### Values that lead others -/

/-- The value compares with the other one as wanted, or as equal. -/
def Leads (wanted : Ordering) (a b : Value) : Prop :=
  ∃ o, a.order b = .ok o ∧ (o = wanted ∨ o = .eq)

section
variable {wanted o₁ o₂ : Ordering} {a b c : Value}

/-- Comparisons that go one way, or come out equal, can be joined. -/
theorem order_trans (hwanted : wanted ≠ .eq) (hab : a.order b = .ok o₁) (hbc : b.order c = .ok o₂)
    (h₁ : o₁ = wanted ∨ o₁ = .eq) (h₂ : o₂ = wanted ∨ o₂ = .eq) :
    a.order c = .ok (o₁.then o₂) := by
  cases wanted with
  | eq => exact absurd rfl hwanted
  | lt =>
    have hne {o : Ordering} (h : o = .lt ∨ o = .eq) : o ≠ .gt := by cases o <;> simp_all
    exact ((ordered_of_order hab).trans (ordered_of_order hbc) (hne h₁) (hne h₂)).order_eq
  | gt =>
    -- Seen from the other end, they go down nowhere.
    have hne {o : Ordering} (h : o = .gt ∨ o = .eq) : o.swap ≠ .gt := by cases o <;> simp_all
    have hswap : (o₂.swap.then o₁.swap).swap = o₁.then o₂ := by
      cases o₁ <;> cases o₂ <;> simp_all
    have hback := (ordered_of_order hbc).reverse.trans (ordered_of_order hab).reverse
      (hne h₂) (hne h₁)
    rw [← hswap]
    exact hback.reverse.order_eq

/-- What is as wanted beside a leader is so beside all that it leads. -/
theorem order_of_leads (hwanted : wanted ≠ .eq) (hab : a.order b = .ok wanted)
    (hbc : b.Leads wanted c) : a.order c = .ok wanted := by
  obtain ⟨o, h, ho⟩ := hbc
  have hthen : wanted.then o = wanted := by
    cases wanted <;> first | rfl | exact absurd rfl hwanted
  rw [order_trans hwanted hab h (.inl rfl) ho, hthen]

theorem Leads.trans (hwanted : wanted ≠ .eq) (hab : a.Leads wanted b) (hbc : b.Leads wanted c) :
    a.Leads wanted c := by
  obtain ⟨o₁, h₁, rfl | rfl⟩ := hab
  · exact ⟨o₁, order_of_leads hwanted h₁ hbc, .inl rfl⟩
  · obtain ⟨o₂, h₂, ho₂⟩ := hbc
    exact ⟨o₂, order_trans hwanted h₁ h₂ (.inr rfl) ho₂, ho₂⟩

theorem Leads.reverse (h : a.Leads wanted b) : b.Leads wanted.swap a := by
  obtain ⟨o, h, ho⟩ := h
  exact ⟨o.swap, (ordered_of_order h).reverse.order_eq, ho.imp (congrArg _) (congrArg _)⟩

/-- Values that lead each other are equal. -/
theorem Leads.antisymm (hwanted : wanted ≠ .eq) (hab : a.Leads wanted b) (hba : b.Leads wanted a) :
    a = b := by
  obtain ⟨o, h, ho⟩ := hab
  obtain ⟨o', h', ho'⟩ := hba
  have hreverse := (ordered_of_order h).reverse.order_eq
  obtain rfl : o' = o.swap := Except.ok.inj (h'.symm.trans hreverse)
  have heq : o = .eq := by cases o <;> cases wanted <;> simp_all
  exact ((ordered_of_order h).eq_and_plain heq).1

/-- Only values of one kind lead each other. -/
theorem Leads.kind_eq (h : a.Leads wanted b) : a.kind = b.kind := by
  obtain ⟨o, ho, -⟩ := h
  cases ordered_of_order ho <;> rfl

end

/-! ### All laws -/

/-- **The order is lawful although it is partial.** One way it fails or is reversed just as
the other way fails or answers; comparisons that do not go down can be joined, and give less
unless both gave equal. It gives equal just for the same values without objects, and
otherwise, where it answers, they are not `=`. That in turn holds just for the same values,
whichever way they are compared. -/
theorem order_laws (a b c : Value) :
    (b.order a).toOption = (a.order b).toOption.map Ordering.swap ∧
      (∀ o₁ o₂, a.order b = .ok o₁ → b.order c = .ok o₂ → o₁ ≠ .gt → o₂ ≠ .gt →
        a.order c = .ok (o₁.then o₂)) ∧
      (a.order b = .ok .eq ↔ a.same b = true ∧ a.Plain) ∧
      (∀ o, a.order b = .ok o → o ≠ .eq → a.equals b = .ok false) ∧
      (a.equals b = .ok true ↔ a.same b = true) ∧
      (b.equals a).toOption = (a.equals b).toOption := by
  refine ⟨order_swap a b, fun o₁ o₂ h₁ h₂ ho₁ ho₂ => ?_, order_eq_iff, fun o h ho => ?_,
    equals_eq_true_iff a b, equals_comm a b⟩
  · exact ((ordered_of_order h₁).trans (ordered_of_order h₂) ho₁ ho₂).order_eq
  · exact (ordered_of_order h).equals_eq_false ho

/-- An object stands behind the first difference, so it does not get in the way. -/
theorem order_before_object :
    let a : Value := .list [.integer 1, .list [.integer 2], .object 0 .nothing]
    let b : Value := .list [.integer 1, .list [.integer 3], .text "x"]
    let c : Value := .list [.integer 2]
    a.order b = .ok .lt ∧ b.order c = .ok .lt ∧ a.order c = .ok .lt ∧
      (b.order a).toOption = some .gt ∧ a.equals b = .ok false := by
  intro a b c
  have hab : a.order b = .ok .lt := rfl
  have hbc : b.order c = .ok .lt := rfl
  obtain ⟨hswap, htrans, -, hequals, -⟩ := order_laws a b c
  exact ⟨hab, hbc, htrans _ _ hab hbc (by decide) (by decide), hswap.trans (by rw [hab]; rfl),
    hequals _ hab (by decide)⟩

end Formulary.Value
