import Formulary.Evaluation.Dice
import Formulary.Scope
import Formulary.Sorting

/-! How computations in a scope are put together.

Evaluation does few things by itself: it asks its scope for names, rolls dice, makes objects,
asks the host and fails; and it goes into objects and opens layers. `Stepwise` says of a
computation that it is made of such steps, as far as its `Means` allow them, and what is then
known of its results. A property of runs that every single step has is by induction a
property of all these computations, whatever the scope, so that the operators and functions
have to be taken apart only once. -/
namespace Formulary

/-- The error of a call with a count of arguments that its function does not take. -/
def EvalError.isArgumentCount : EvalError → Bool
  | .argumentCount _ _ => true
  | _ => false

/-- What an expression may be written with. -/
structure Vocabulary where
  name : String → Prop
  operator : BinaryOp → Prop
  /-- A function, and with how many arguments. -/
  call : Builtin → Nat → Prop

/-- What a computation may make use of, and what it may come to. -/
structure Means extends Vocabulary where
  value : Value → Prop
  object : Object → Prop
  error : EvalError → Prop

/-- The values are closed under what evaluation makes of them, and all errors that it finds
are among the errors. -/
structure Means.Closed (A : Means) : Prop where
  integer : ∀ n, A.value (.integer n)
  text : ∀ s, A.value (.text s)
  list : ∀ items, A.value (.list items) ↔ ∀ v ∈ items, A.value v
  reference : ∀ identity o, A.value (.object identity o) ↔ A.object o
  tile : ∀ l, A.call .loc 2 → A.object (.tile l)
  /-- The records in a record become objects. -/
  record : ∀ fields fields', A.object (.record fields) → A.object (.record fields')
  layer : ∀ entries fallback, A.object (.layer entries fallback) →
    (∀ entry ∈ entries, A.value entry.2) ∧ A.object fallback
  /-- A host may answer with anything. -/
  host : ∀ handle v, A.object (.host handle) → A.value v
  fail : ∀ e, e.isArgumentCount = false → A.error e
  count : ∀ f n, A.call f n → f.arity.accepts n = false → A.error (.argumentCount f n)

namespace Means.Closed

variable {A : Means}

mutual

/-- Where records are among the objects, the values of all documents are among the values. -/
theorem value_ofDocument (hA : A.Closed) {fields : List (String × Document)}
    (h : A.object (.record fields)) (free : Nat) (d : Document) :
    A.value (Value.ofDocument free d).1 := by
  cases d with
  | null | bool | integer | double => exact hA.integer _
  | text s => exact hA.text s
  | list items => exact (hA.list _).2 (value_ofDocuments hA h free items)
  | record fields' => exact (hA.reference _ _).2 (hA.record _ _ h)

theorem value_ofDocuments (hA : A.Closed) {fields : List (String × Document)}
    (h : A.object (.record fields)) (free : Nat) (ds : List Document) :
    ∀ v ∈ (Value.ofDocuments free ds).1, A.value v := by
  cases ds with
  | nil => exact fun _ hv => nomatch hv
  | cons d ds =>
    exact List.forall_mem_cons.2 ⟨value_ofDocument hA h free d, value_ofDocuments hA h _ ds⟩

end

end Means.Closed

/-- The computation is made of steps that the means allow, and `post` holds of its results. -/
inductive Stepwise (A : Means) : ∀ {α : Type}, (Scope → Run α) → (α → Prop) → Prop where
  | pure {α : Type} {post : α → Prop} {a : α} (h : post a) :
      Stepwise A (fun _ => Pure.pure a) post
  | fail {α : Type} {post : α → Prop} {e : EvalError} (h : A.error e) :
      Stepwise A (fun _ => throw e : Scope → Run α) post
  | bind {α β : Type} {m : Scope → Run α} {post : α → Prop} {f : α → Scope → Run β}
      {Q : β → Prop} (h : Stepwise A m post) (hf : ∀ a, post a → Stepwise A (f a) Q) :
      Stepwise A (fun scope => m scope >>= fun a => f a scope) Q
  | name {n : String} (h : A.name n) : Stepwise A (fun scope => scope.query n) A.value
  | roll {count faces : Int64} (h : A.operator .dice) :
      Stepwise A (fun _ => Formulary.roll count faces) fun _ => True
  | object {o : Object} (h : A.object o) : Stepwise A (fun _ => liftM (newObject o)) A.value
  | document {fields : List (String × Document)} {d : Document} (h : A.object (.record fields)) :
      Stepwise A (fun _ => liftM (newValue d)) A.value
  | ask {handle : Nat} {key : String} (h : A.object (.host handle)) :
      Stepwise A (fun _ => ExceptT.mk (askHost ⟨handle, .query, key⟩)) A.value
  | inside {α : Type} {m : Scope → Run α} {post : α → Prop} {o : Object}
      (ho : ∀ n, Stepwise A (fun _ => o.query n) A.value) (h : Stepwise A m post) :
      Stepwise A (fun _ => m (.object o)) post
  | elements {α : Type} {m : Scope → Run α} {post : α → Prop} {bindings : List (String × Value)}
      (hb : ∀ b ∈ bindings, A.value b.2) (h : Stepwise A m post) :
      Stepwise A (fun scope => m (.elements bindings scope)) post
  | clauses {α : Type} {m : Scope → Run α} {post : α → Prop} {bindings : List (String × Meaning)}
      (hb : ∀ b ∈ bindings, Stepwise A b.2 A.value) (h : Stepwise A m post) :
      Stepwise A (fun scope => do
        let inner ← Scope.openClauses (bindings.map fun b => (b.1, b.2 scope)) scope
        m inner) post

theorem mem_of_lookup {α : Type} {entries : List (String × α)} {key : String} {a : α}
    (h : entries.lookup key = some a) : (key, a) ∈ entries := by
  obtain ⟨before, behind, rfl, -⟩ := List.lookup_eq_some_iff.1 h
  simp

namespace Stepwise

variable {A : Means} {α β σ : Type} {m : Scope → Run α} {post post' : α → Prop} {Q : β → Prop}

theorem map {f : α → β} (h : Stepwise A m post) (hf : ∀ a, post a → Q (f a)) :
    Stepwise A (fun scope => f <$> m scope) Q := by
  simp only [← bind_pure_comp]
  exact h.bind fun a ha => .pure (hf a ha)

theorem mono (h : Stepwise A m post) (hpost : ∀ a, post a → post' a) : Stepwise A m post' := by
  simpa only [id_map] using h.map (f := id) hpost

theorem ofExcept {x : Except EvalError α} (hok : ∀ a, x = .ok a → post a)
    (herror : ∀ e, x = .error e → A.error e) : Stepwise A (fun _ => Run.ofExcept x) post := by
  cases x with
  | error e => exact .fail (herror e rfl)
  | ok a => exact .pure (hok a rfl)

/-! ### Objects -/

/-- Objects are asked for their attributes in steps. -/
theorem query (hA : A.Closed) {o : Object} (ho : A.object o) (key : String) :
    Stepwise A (fun _ => o.query key) A.value := by
  cases o with
  | nothing => exact .pure (hA.integer 0)
  | tile l =>
    refine .pure (?_ : A.value (l.get key))
    unfold Location.get
    split <;> exact hA.integer _
  | record fields =>
    show Stepwise A (fun _ => liftM ((Object.record fields).get key)) A.value
    unfold Object.get
    split
    · exact .document ho
    · exact .pure (hA.integer 0)
  | layer entries fallback =>
    obtain ⟨hentries, hfallback⟩ := hA.layer _ _ ho
    unfold Object.query
    split
    · next v hv => exact .pure (hentries _ (mem_of_lookup hv))
    · exact query hA hfallback key
  | host handle => exact .ask ho

/-! ### Loops -/

section
variable {f : β → Scope → Run α} {items : List β}

theorem foldlM {f : σ → β → Scope → Run σ} {I : σ → Prop} {s : σ} (hs : I s)
    (h : ∀ s, I s → ∀ item ∈ items, Stepwise A (f s item) I) :
    Stepwise A (fun scope => items.foldlM (fun s item => f s item scope) s) I := by
  induction items generalizing s with
  | nil => exact .pure hs
  | cons item items ih =>
    simp only [List.foldlM_cons]
    refine (h s hs item List.mem_cons_self).bind fun s' hs' => ih hs' ?_
    exact fun s hs item hitem => h s hs item (List.mem_cons_of_mem _ hitem)

theorem mapM (h : ∀ item ∈ items, Stepwise A (f item) post) :
    Stepwise A (fun scope => items.mapM fun item => f item scope)
      fun as => as.length = items.length ∧ ∀ a ∈ as, post a := by
  induction items with
  | nil => exact .pure ⟨rfl, fun _ ha => nomatch ha⟩
  | cons item items ih =>
    simp only [List.mapM_cons]
    refine (h item List.mem_cons_self).bind fun a ha => ?_
    refine (ih fun i hi => h i (List.mem_cons_of_mem _ hi)).bind fun as ⟨hlength, has⟩ => ?_
    exact .pure ⟨congrArg Nat.succ hlength, List.forall_mem_cons.2 ⟨ha, has⟩⟩

theorem filterMapM {f : β → Scope → Run (Option α)}
    (h : ∀ item ∈ items, Stepwise A (f item) fun a => ∀ x ∈ a, post x) :
    Stepwise A (fun scope => items.filterMapM fun item => f item scope)
      fun as => ∀ a ∈ as, post a := by
  induction items with
  | nil => exact .pure fun _ ha => nomatch ha
  | cons item items ih =>
    simp only [List.filterMapM_cons]
    have hrest := ih fun i hi => h i (List.mem_cons_of_mem _ hi)
    refine (h item List.mem_cons_self).bind fun a ha => ?_
    cases a with
    | none => exact hrest
    | some a =>
      refine hrest.bind fun as has => .pure ?_
      exact List.forall_mem_cons.2 ⟨ha a rfl, has⟩

theorem findM? {p : β → Scope → Run Bool} (h : ∀ item ∈ items, Stepwise A (p item) fun _ => True)
    {I : β → Prop} (hitems : ∀ item ∈ items, I item) :
    Stepwise A (fun scope => items.findM? fun item => p item scope)
      fun found => ∀ item ∈ found, I item := by
  induction items with
  | nil => exact .pure fun _ hi => nomatch hi
  | cons item items ih =>
    simp only [List.findM?]
    refine (h item List.mem_cons_self).bind fun b _ => ?_
    cases b with
    | true => exact .pure fun i hi => Option.some.inj hi ▸ hitems item List.mem_cons_self
    | false =>
      exact ih (fun i hi => h i (List.mem_cons_of_mem _ hi))
        fun i hi => hitems i (List.mem_cons_of_mem _ hi)

end

/-! ### Sorting -/

section
variable {before : β → β → Scope → Run Bool} {I : β → Prop} {items left right : List β}

theorem merge (hbefore : ∀ a b, I a → I b → Stepwise A (before a b) fun _ => True)
    (hleft : ∀ a ∈ left, I a) (hright : ∀ b ∈ right, I b) :
    Stepwise A (fun scope => Formulary.merge (fun a b => before a b scope) left right)
      fun merged => ∀ a ∈ merged, I a := by
  induction left, right using merge.induct with
  | case1 right =>
    simp only [Formulary.merge]
    exact .pure hright
  | case2 left hne =>
    cases left with
    | nil => exact absurd rfl hne
    | cons a left =>
      simp only [Formulary.merge]
      exact .pure hleft
  | case3 a left b right ihright ihleft =>
    simp only [Formulary.merge]
    obtain ⟨ha, hleft'⟩ := List.forall_mem_cons.1 hleft
    obtain ⟨hb, hright'⟩ := List.forall_mem_cons.1 hright
    refine (hbefore b a hb ha).bind fun first _ => ?_
    cases first with
    | true =>
      exact (ihright hleft hright').bind fun merged hmerged =>
        .pure (List.forall_mem_cons.2 ⟨hb, hmerged⟩)
    | false =>
      exact (ihleft hleft' hright).bind fun merged hmerged =>
        .pure (List.forall_mem_cons.2 ⟨ha, hmerged⟩)

theorem mergeSort (hbefore : ∀ a b, I a → I b → Stepwise A (before a b) fun _ => True)
    (hitems : ∀ a ∈ items, I a) :
    Stepwise A (fun scope => Formulary.mergeSort (fun a b => before a b scope) items)
      fun sorted => ∀ a ∈ sorted, I a := by
  induction items using mergeSort.induct with
  | case1 items h =>
    have heq (scope : Scope) : Formulary.mergeSort (fun a b => before a b scope) items =
        Pure.pure items := by rw [Formulary.mergeSort, if_pos h]
    simp only [heq]
    exact .pure hitems
  | case2 items h ihleft ihright =>
    have heq (scope : Scope) : Formulary.mergeSort (fun a b => before a b scope) items = (do
        let left ← Formulary.mergeSort (fun a b => before a b scope) (items.take (items.length / 2))
        let right ← Formulary.mergeSort (fun a b => before a b scope) (items.drop (items.length / 2))
        Formulary.merge (fun a b => before a b scope) left right) := by
      rw [Formulary.mergeSort, if_neg h]
    simp only [heq]
    refine (ihleft fun a ha => hitems a (List.mem_of_mem_take ha)).bind fun left hleft => ?_
    refine (ihright fun a ha => hitems a (List.mem_of_mem_drop ha)).bind fun right hright => ?_
    exact .merge hbefore hleft hright

end

end Stepwise

end Formulary
