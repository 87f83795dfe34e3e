import Formulary.Evaluation.Functions
import Formulary.Value.Document
import Mathlib.Data.List.Forall2
import Mathlib.Logic.Relator
import Mathlib.Order.PropInstances

/-! Values that differ in identities.

Two runs that do the same may number their objects differently. What they come to is not the
same then but `Alike`: the same but for identities, and each identity on one side goes with
one on the other. Only the sameness of objects depends on identities, so if none of them goes
with two, all views and comparisons of alike values agree. -/
namespace Formulary

/-- Which identities of one run go with which of another. -/
abbrev Names := Nat → Nat → Prop

/-- Each identity below `n` goes with itself. -/
def Names.below (n : Nat) : Names := fun i i' => i = i' ∧ i < n

theorem Names.below_mono {m n : Nat} (h : m ≤ n) : below m ≤ below n :=
  fun _ _ hi => ⟨hi.1, hi.2.trans_le h⟩

section
variable (hosts : Nat → Prop) (names : Names)

mutual

/-- The same value but for identities that go with each other. Of the objects of the host it
has only those in `hosts`. -/
inductive Value.Alike : Value → Value → Prop where
  | integer (n : Int64) : Value.Alike (.integer n) (.integer n)
  | text (s : String) : Value.Alike (.text s) (.text s)
  | list {items items' : List Value} (h : ItemsAlike items items') :
      Value.Alike (.list items) (.list items')
  | object {i i' : Nat} {o o' : Object} (hi : names i i') (h : Object.Alike o o') :
      Value.Alike (.object i o) (.object i' o')

inductive ItemsAlike : List Value → List Value → Prop where
  | nil : ItemsAlike [] []
  | cons {v v' : Value} {items items' : List Value} (h : Value.Alike v v')
      (hrest : ItemsAlike items items') : ItemsAlike (v :: items) (v' :: items')

inductive Object.Alike : Object → Object → Prop where
  | nothing : Object.Alike .nothing .nothing
  | tile (l : Location) : Object.Alike (.tile l) (.tile l)
  | record (fields : List (String × Document)) : Object.Alike (.record fields) (.record fields)
  | layer {entries entries' : List (String × Value)} {fallback fallback' : Object}
      (hentries : EntriesAlike entries entries') (h : Object.Alike fallback fallback') :
      Object.Alike (.layer entries fallback) (.layer entries' fallback')
  | host {handle : Nat} (h : hosts handle) : Object.Alike (.host handle) (.host handle)

/-- Alike values under the same keys. -/
inductive EntriesAlike : List (String × Value) → List (String × Value) → Prop where
  | nil : EntriesAlike [] []
  | cons {key : String} {v v' : Value} {entries entries' : List (String × Value)}
      (h : Value.Alike v v') (hrest : EntriesAlike entries entries') :
      EntriesAlike ((key, v) :: entries) ((key, v') :: entries')

end

/-- All identities in the value are below `n`, and its objects of the host are in `hosts`. -/
def Value.Known (n : Nat) (v : Value) : Prop := v.Alike hosts (.below n) v

/-- The same for all values that an object has. -/
def Object.Known (n : Nat) (o : Object) : Prop := o.Alike hosts (.below n) o

end

section
variable {hosts : Nat → Prop} {names more : Names} {n : Nat}

/-! ### More identities that go together -/

mutual

theorem Value.Alike.mono (hle : names ≤ more) {v v' : Value} (h : v.Alike hosts names v') :
    v.Alike hosts more v' := by
  cases h with
  | integer n => exact .integer n
  | text s => exact .text s
  | list h => exact .list (h.mono hle)
  | object hi h => exact .object (hle _ _ hi) (h.mono hle)

theorem ItemsAlike.mono (hle : names ≤ more) {items items' : List Value}
    (h : ItemsAlike hosts names items items') : ItemsAlike hosts more items items' := by
  cases h with
  | nil => exact .nil
  | cons h hrest => exact .cons (h.mono hle) (hrest.mono hle)

theorem Object.Alike.mono (hle : names ≤ more) {o o' : Object} (h : o.Alike hosts names o') :
    o.Alike hosts more o' := by
  cases h with
  | nothing => exact .nothing
  | tile l => exact .tile l
  | record fields => exact .record fields
  | layer hentries h => exact .layer (hentries.mono hle) (h.mono hle)
  | host h => exact .host h

theorem EntriesAlike.mono (hle : names ≤ more) {entries entries' : List (String × Value)}
    (h : EntriesAlike hosts names entries entries') : EntriesAlike hosts more entries entries' := by
  cases h with
  | nil => exact .nil
  | cons h hrest => exact .cons (h.mono hle) (hrest.mono hle)

end

/-! ### Known values -/

mutual

theorem Value.Alike.known (hnames : ∀ i i', names i i' → i' < n) {v v' : Value}
    (h : v.Alike hosts names v') : v'.Known hosts n := by
  cases h with
  | integer m => exact .integer m
  | text s => exact .text s
  | list h => exact .list (h.known hnames)
  | object hi h => exact .object ⟨rfl, hnames _ _ hi⟩ (h.known hnames)

theorem ItemsAlike.known (hnames : ∀ i i', names i i' → i' < n) {items items' : List Value}
    (h : ItemsAlike hosts names items items') : ItemsAlike hosts (.below n) items' items' := by
  cases h with
  | nil => exact .nil
  | cons h hrest => exact .cons (h.known hnames) (hrest.known hnames)

theorem Object.Alike.known (hnames : ∀ i i', names i i' → i' < n) {o o' : Object}
    (h : o.Alike hosts names o') : o'.Known hosts n := by
  cases h with
  | nothing => exact .nothing
  | tile l => exact .tile l
  | record fields => exact .record fields
  | layer hentries h => exact .layer (hentries.known hnames) (h.known hnames)
  | host h => exact .host h

theorem EntriesAlike.known (hnames : ∀ i i', names i i' → i' < n)
    {entries entries' : List (String × Value)} (h : EntriesAlike hosts names entries entries') :
    EntriesAlike hosts (.below n) entries' entries' := by
  cases h with
  | nil => exact .nil
  | cons h hrest => exact .cons (h.known hnames) (hrest.known hnames)

end

theorem Value.Known.mono {m : Nat} {v : Value} (h : v.Known hosts m) (hle : m ≤ n) :
    v.Known hosts n :=
  Value.Alike.mono (Names.below_mono hle) h

theorem Object.Known.mono {m : Nat} {o : Object} (h : o.Known hosts m) (hle : m ≤ n) :
    o.Known hosts n :=
  Object.Alike.mono (Names.below_mono hle) h

theorem itemsAlike_iff {items items' : List Value} :
    ItemsAlike hosts names items items' ↔
      List.Forall₂ (Value.Alike hosts names) items items' := by
  constructor
  · intro h
    induction items generalizing items' with
    | nil =>
      cases h
      exact .nil
    | cons v items ih =>
      cases h with
      | cons h hrest => exact .cons h (ih hrest)
  · intro h
    induction h with
    | nil => exact .nil
    | cons h _ ih => exact .cons h ih

theorem entriesAlike_of_known {entries : List (String × Value)}
    (h : ∀ entry ∈ entries, entry.2.Known hosts n) :
    EntriesAlike hosts (.below n) entries entries := by
  induction entries with
  | nil => exact .nil
  | cons entry entries ih =>
    obtain ⟨hentry, hrest⟩ := List.forall_mem_cons.1 h
    exact .cons hentry (ih hrest)

theorem EntriesAlike.known_of_mem (hnames : ∀ i i', names i i' → i' < n)
    {entries entries' : List (String × Value)} (h : EntriesAlike hosts names entries entries') :
    ∀ entry ∈ entries', entry.2.Known hosts n := by
  induction entries generalizing entries' with
  | nil =>
    cases h
    exact List.forall_mem_nil _
  | cons entry entries ih =>
    cases h with
    | cons h hrest => exact List.forall_mem_cons.2 ⟨h.known hnames, ih hrest⟩

/-- The elements of a known list are known. -/
theorem Value.Known.of_list {items : List Value} (h : (Value.list items).Known hosts n) :
    ∀ v ∈ items, v.Known hosts n := by
  cases h with
  | list h => exact fun v hv => List.forall₂_same.1 (itemsAlike_iff.1 h) v hv

/-- A key has alike values, or none on either side. -/
theorem EntriesAlike.lookup {entries entries' : List (String × Value)}
    (h : EntriesAlike hosts names entries entries') (key : String) :
    Option.Rel (Value.Alike hosts names) (entries.lookup key) (entries'.lookup key) := by
  induction entries generalizing entries' with
  | nil =>
    cases h
    exact .none
  | cons entry entries ih =>
    cases h with
    | cons h hrest =>
      rw [Keyed.lookup_cons, Keyed.lookup_cons]
      split
      · exact .some h
      · exact ih hrest

/-! ### Views and comparisons -/

namespace Value.Alike

variable {v v' : Value}

theorem asInteger_eq (h : v.Alike hosts names v') (place : Place) :
    v.asInteger place = v'.asInteger place := by
  cases h <;> rfl

theorem truth_eq (h : v.Alike hosts names v') : v.truth = v'.truth := by
  rw [truth, truth, h.asInteger_eq]

end Value.Alike

mutual

theorem Value.Alike.display_eq {v v' : Value} (h : v.Alike hosts names v') :
    v.display = v'.display := by
  cases h with
  | integer | text | object => rfl
  | list h => exact congrArg (String.intercalate ", ") h.displayItems_eq

theorem ItemsAlike.displayItems_eq {items items' : List Value}
    (h : ItemsAlike hosts names items items') :
    Value.displayItems items = Value.displayItems items' := by
  cases h with
  | nil => rfl
  | cons h hrest => rw [Value.displayItems, Value.displayItems, h.display_eq, hrest.displayItems_eq]

end

mutual

theorem Value.Alike.order_eq {a a' b b' : Value} (ha : a.Alike hosts names a')
    (hb : b.Alike hosts names b') : a.order b = a'.order b' := by
  cases ha with
  | integer | text | object => cases hb <;> rfl
  | list has =>
    cases hb with
    | integer | text | object => rfl
    | list hbs => exact has.orderItems_eq hbs

theorem ItemsAlike.orderItems_eq {as as' bs bs' : List Value}
    (ha : ItemsAlike hosts names as as') (hb : ItemsAlike hosts names bs bs') :
    Value.orderItems as bs = Value.orderItems as' bs' := by
  cases ha with
  | nil => cases hb <;> rfl
  | cons ha has =>
    cases hb with
    | nil => rfl
    | cons hb hbs =>
      rw [Value.orderItems, Value.orderItems, ha.order_eq hb, has.orderItems_eq hbs]

end

theorem ItemsAlike.length_eq {items items' : List Value} (h : ItemsAlike hosts names items items') :
    items.length = items'.length :=
  (itemsAlike_iff.1 h).length_eq

mutual

theorem Value.Alike.equals_eq (hsingle : Relator.BiUnique names) {a a' b b' : Value}
    (ha : a.Alike hosts names a') (hb : b.Alike hosts names b') : a.equals b = a'.equals b' := by
  cases ha with
  | integer | text => cases hb <;> rfl
  | list has =>
    cases hb with
    | integer | text | object => rfl
    | list hbs =>
      rw [Value.equals, Value.equals, has.length_eq, hbs.length_eq, has.equalItems_eq hsingle hbs]
  | object hi =>
    cases hb with
    | integer | text | list => rfl
    | object hj =>
      have hiff := Relator.rel_eq hsingle hi hj
      simp only [Value.equals, hiff]

theorem ItemsAlike.equalItems_eq (hsingle : Relator.BiUnique names) {as as' bs bs' : List Value}
    (ha : ItemsAlike hosts names as as') (hb : ItemsAlike hosts names bs bs') :
    Value.equalItems as bs = Value.equalItems as' bs' := by
  cases ha with
  | nil => cases hb <;> rfl
  | cons ha has =>
    cases hb with
    | nil => rfl
    | cons hb hbs =>
      rw [Value.equalItems, Value.equalItems, ha.equals_eq hsingle hb,
        has.equalItems_eq hsingle hbs]

end

/-! ### Elements and candidates -/

/-- Both have a result, and these are related, or both have the same error. -/
inductive Likewise {α α' : Type} (post : α → α' → Prop) :
    Except EvalError α → Except EvalError α' → Prop where
  | ok {a : α} {a' : α'} (h : post a a') : Likewise post (.ok a) (.ok a')
  | error (e : EvalError) : Likewise post (.error e) (.error e)

namespace Likewise

variable {α α' β β' : Type} {post : α → α' → Prop} {Q : β → β' → Prop}

theorem of_eq {x x' : Except EvalError α} (h : x = x') : Likewise Eq x x' := by
  subst h
  cases x with
  | error e => exact .error e
  | ok a => exact .ok rfl

theorem bind {x : Except EvalError α} {x' : Except EvalError α'} {f : α → Except EvalError β}
    {f' : α' → Except EvalError β'} (h : Likewise post x x')
    (hf : ∀ a a', post a a' → Likewise Q (f a) (f' a')) : Likewise Q (x >>= f) (x' >>= f') := by
  cases h with
  | ok h => exact hf _ _ h
  | error e => exact .error e

end Likewise

section
variable {v v' : Value} {items items' : List Value}

theorem ItemsAlike.getElem? (h : ItemsAlike hosts names items items') (k : Nat) :
    Option.Rel (Value.Alike hosts names) items[k]? items'[k]? := by
  induction items generalizing items' k with
  | nil =>
    cases h
    exact .none
  | cons v items ih =>
    cases h with
    | cons h hrest =>
      cases k with
      | zero => exact .some h
      | succ k => exact ih hrest k

theorem Value.Alike.asList (h : v.Alike hosts names v') (place : Place) :
    Likewise (ItemsAlike hosts names) (v.asList place) (v'.asList place) := by
  cases h with
  | integer | text | object => exact .error _
  | list h => exact .ok h

theorem Value.Alike.element (h : v.Alike hosts names v') (index : Int64) :
    Likewise (Value.Alike hosts names) (v.element index) (v'.element index) := by
  refine (h.asList .listOperand).bind fun items items' hitems => ?_
  have hitem := hitems.getElem? index.toInt.toNat
  simp only [hitems.length_eq]
  split
  · exact .error _
  · revert hitem
    generalize items[index.toInt.toNat]? = found
    generalize items'[index.toInt.toNat]? = found'
    rintro (⟨hitem⟩ | _)
    · exact .ok hitem
    · exact .error _

open Builtin

theorem Value.Alike.offers (h : v.Alike hosts names v') :
    ItemsAlike hosts names (offers v) (offers v') := by
  cases h with
  | integer n => exact .cons (.integer n) .nil
  | text s => exact .cons (.text s) .nil
  | list h => exact h
  | object hi h => exact .cons (.object hi h) .nil

theorem likewise_better (wanted : Ordering) {best best' : Option Value}
    (hbest : Option.Rel (Value.Alike hosts names) best best') (hv : v.Alike hosts names v') :
    Likewise (Option.Rel (Value.Alike hosts names)) (better wanted best v)
      (better wanted best' v') := by
  cases hbest with
  | none => exact .ok (.some hv)
  | some hcurrent =>
    refine (Likewise.of_eq (hv.order_eq hcurrent)).bind fun o _ ho => .ok ?_
    subst ho
    split
    · exact .some hv
    · exact .some hcurrent

theorem likewise_foldlM_better (wanted : Ordering) {best best' : Option Value}
    (hbest : Option.Rel (Value.Alike hosts names) best best')
    (h : ItemsAlike hosts names items items') :
    Likewise (Option.Rel (Value.Alike hosts names)) (items.foldlM (better wanted) best)
      (items'.foldlM (better wanted) best') := by
  induction items generalizing items' best best' with
  | nil =>
    cases h
    exact .ok hbest
  | cons v items ih =>
    cases h with
    | cons hv hrest =>
      rw [List.foldlM_cons, List.foldlM_cons]
      exact (likewise_better wanted hbest hv).bind fun _ _ hbest => ih hbest hrest

end

end

/-! ### Documents -/

mutual

/-- A document makes the same value from any first identity on, but for the identities. -/
theorem Value.exists_count_ofDocument (d : Document) :
    ∃ count, ∀ free, (ofDocument free d).2 = free + count ∧
      ∀ (hosts : Nat → Prop) (names : Names) (free' : Nat),
        (∀ i < count, names (free + i) (free' + i)) →
        (ofDocument free d).1.Alike hosts names (ofDocument free' d).1 := by
  cases d with
  | null | bool | integer | double => exact ⟨0, fun free => ⟨rfl, fun _ _ _ _ => .integer _⟩⟩
  | text s => exact ⟨0, fun free => ⟨rfl, fun _ _ _ _ => .text s⟩⟩
  | list items =>
    obtain ⟨count, hitems⟩ := Value.exists_count_ofDocuments items
    exact ⟨count, fun free => ⟨(hitems free).1, fun hosts names free' hnames =>
      .list ((hitems free).2 hosts names free' hnames)⟩⟩
  | record fields =>
    exact ⟨1, fun free => ⟨rfl, fun hosts names free' hnames =>
      .object (hnames 0 Nat.one_pos) (.record fields)⟩⟩

theorem Value.exists_count_ofDocuments (ds : List Document) :
    ∃ count, ∀ free, (ofDocuments free ds).2 = free + count ∧
      ∀ (hosts : Nat → Prop) (names : Names) (free' : Nat),
        (∀ i < count, names (free + i) (free' + i)) →
        ItemsAlike hosts names (ofDocuments free ds).1 (ofDocuments free' ds).1 := by
  cases ds with
  | nil => exact ⟨0, fun free => ⟨rfl, fun _ _ _ _ => .nil⟩⟩
  | cons d ds =>
    obtain ⟨first, hd⟩ := Value.exists_count_ofDocument d
    obtain ⟨rest, hds⟩ := Value.exists_count_ofDocuments ds
    refine ⟨first + rest, fun free => ⟨?_, fun hosts names free' hnames => ?_⟩⟩
    · simp only [ofDocuments, (hd free).1, (hds _).1, Nat.add_assoc]
    · simp only [ofDocuments, (hd free).1, (hd free').1]
      refine .cons ((hd free).2 hosts names free' fun i hi => hnames i (by omega))
        ((hds _).2 hosts names _ fun i hi => ?_)
      simpa only [Nat.add_assoc] using hnames (first + i) (by omega)

end

end Formulary
