import Formulary.Proofs.Except
import Formulary.Proofs.Loading

/-! What every registry looks like.

A registry that was empty or loaded, and into which formulas were inserted with or without
success, is `Reached`. One formula more keeps it `Valid` (`Valid.put`): its tables and their
keys are in ascending order, no table is without a formula, and each formula is the parse of
its own source. An insertion compiles before it opens a table, so a failure changes
nothing. -/
namespace Formulary.Registry

theorem parse_of_compile {source : String} {f : Formula} (h : Formula.compile source = .ok f) :
    parse f.source = .ok f.expr := by
  obtain ⟨e, he, hf⟩ := bind_eq_ok_iff.1 h
  obtain rfl := Except.ok.inj hf
  exact he

structure Valid (r : Registry) : Prop where
  names_sorted : r.names.Pairwise (· < ·)
  keys_sorted : ∀ t, (r.keys t).Pairwise (· < ·)
  mem_names : ∀ t, t ∈ r.names ↔ r.keys t ≠ []
  parsed : ∀ t k f, r.get? t k = some f → parse f.source = .ok f.expr

theorem isSome_get?_iff (r : Registry) (t k : String) : (r.get? t k).isSome ↔ k ∈ r.keys t :=
  Keyed.isSome_lookup_iff

theorem keys_put (r : Registry) (table key t : String) (f : Formula) :
    (r.put table key f).keys t =
      if t = table then Keyed.keys (Keyed.insert key f (r.table table)) else r.keys t := by
  rw [keys, table_put]
  split <;> rfl

theorem Valid.empty : Valid empty where
  names_sorted := .nil
  keys_sorted _ := .nil
  mem_names t := by simp [names, keys, table, Registry.empty, Keyed.keys]
  parsed _ _ _ h := nomatch h

theorem Valid.put {r : Registry} (h : r.Valid) (table key : String) {f : Formula}
    (hf : parse f.source = .ok f.expr) : (r.put table key f).Valid where
  names_sorted := Keyed.sorted_insert _ _ h.names_sorted
  keys_sorted t := by
    rw [keys_put]
    split
    · exact Keyed.sorted_insert _ _ (h.keys_sorted table)
    · exact h.keys_sorted t
  mem_names t := by
    have hname : t ∈ (r.put table key f).names ↔ t = table ∨ t ∈ r.names := Keyed.mem_keys_insert
    rw [hname, keys_put, h.mem_names]
    by_cases ht : t = table
    · have hkey : key ∈ Keyed.keys (Keyed.insert key f (r.table table)) :=
        Keyed.mem_keys_insert.2 (.inl rfl)
      simp [ht, List.ne_nil_of_mem hkey]
    · simp [ht]
  parsed t k f' hf' := by
    rw [get?_put] at hf'
    split at hf'
    · exact Option.some.inj hf' ▸ hf
    · exact h.parsed t k f' hf'

/-! ### Loaded registries -/

theorem Valid.store {r : Registry} (h : r.Valid) (table key : String) (d : Document) :
    (r.store table key d).Valid := by
  rw [Registry.store]
  cases hd : formula? d with
  | none => exact h
  | some f =>
    obtain ⟨source, -, hf⟩ := formula?_eq_some_iff.1 hd
    exact h.put table key (parse_of_compile hf)

theorem Valid.storeMember {r : Registry} (h : r.Valid) (member : String × Document) :
    (r.storeMember member).Valid := by
  rw [Registry.storeMember]
  split
  · exact List.foldlRecOn _ _ h fun r h entry _ => h.store member.1 entry.1 entry.2
  · exact h.store _ _ _

theorem valid_of_ofText {explain : String → String} {text : String} {r : Registry}
    (h : ofText explain text = .ok r) : r.Valid := by
  obtain ⟨members, -, -, rfl⟩ := ofText_eq_ok h
  exact List.foldlRecOn members _ .empty fun r h member _ => h.storeMember member

/-! ### Registries in use -/

/-- A registry that was empty or loaded at first, after any insertions. -/
inductive Reached : Registry → Prop where
  | empty : Reached empty
  | loaded {explain : String → String} {text : String} {r : Registry}
      (h : ofText explain text = .ok r) : Reached r
  | inserted {r : Registry} (h : Reached r) (table key source : String) :
      Reached ((insertion table key source).run.run r).2

theorem Reached.valid {r : Registry} (h : Reached r) : r.Valid := by
  induction h with
  | empty => exact .empty
  | loaded h => exact valid_of_ofText h
  | inserted _ table key source ih =>
    rw [run_insertion]
    cases hf : Formula.compile source with
    | ok f => exact ih.put table key (parse_of_compile hf)
    | error cause => exact ih

/-- **A registry lists just what it holds.** A failed insertion leaves everything as it was, and
a successful one changes what is found under its own table and key. Tables and keys are
listed in ascending order and without repetition; the tables listed are those that have a
key, and the keys of a table those under which there is a formula. Each formula is the
parse of its source. -/
theorem Reached.laws {r : Registry} (h : Reached r) :
    (∀ table key source, let y := (insertion table key source).run.run r
      (∀ e, y.1 = .error e →
        y.2.names = r.names ∧ (∀ t, y.2.keys t = r.keys t) ∧ ∀ t k, y.2.get? t k = r.get? t k) ∧
      (y.1 = .ok () → ∃ f, Formula.compile source = .ok f ∧
        ∀ t k, y.2.get? t k = if t = table ∧ k = key then some f else r.get? t k)) ∧
    r.names.Pairwise (· < ·) ∧ (∀ t, t ∈ r.names ↔ r.keys t ≠ []) ∧
    (∀ t k, (r.get? t k).isSome ↔ k ∈ r.keys t) ∧ (∀ t, (r.keys t).Pairwise (· < ·)) ∧
    ∀ t k f, r.get? t k = some f → parse f.source = .ok f.expr := by
  have hvalid := h.valid
  refine ⟨fun table key source => ?_, hvalid.names_sorted, hvalid.mem_names, r.isSome_get?_iff,
    hvalid.keys_sorted, hvalid.parsed⟩
  rw [run_insertion]
  cases Formula.compile source with
  | ok f => exact ⟨nofun, fun _ => ⟨f, rfl, fun t k => r.get?_put table key t k f⟩⟩
  | error cause => exact ⟨fun _ _ => ⟨rfl, fun _ => rfl, fun _ _ => rfl⟩, nofun⟩

/-- An insertion that fails makes no table. -/
theorem laws_after_failure :
    let failed := ((insertion "s" "k" "1 +").run.run empty).2
    let r := ((insertion "t" "k" "1").run.run failed).2
    Reached r ∧ "s" ∉ r.names ∧ "t" ∈ r.names ∧ (r.get? "t" "k").isSome ∧
      r.names.Pairwise (· < ·) := by
  intro failed r
  have hfailed : failed = empty := by
    have hcompile : ∃ cause, Formula.compile "1 +" = .error cause := ⟨_, by cbv⟩
    obtain ⟨cause, hcompile⟩ := hcompile
    simp only [failed, run_insertion, hcompile]
  have hput : r = empty.put "t" "k" ⟨"1", .integer 1⟩ := by
    have hcompile : Formula.compile "1" = .ok ⟨"1", .integer 1⟩ := by cbv
    simp only [r, run_insertion, hcompile, hfailed]
  have hreached : Reached r := (Reached.empty.inserted "s" "k" "1 +").inserted "t" "k" "1"
  obtain ⟨-, hsorted, hnames, hget, -⟩ := hreached.laws
  have hs : r.keys "s" = [] := by rw [hput]; rfl
  have ht : r.keys "t" = ["k"] := by rw [hput]; rfl
  refine ⟨hreached, fun hmem => (hnames "s").1 hmem hs, (hnames "t").2 ?_, (hget "t" "k").2 ?_,
    hsorted⟩
  · exact ht ▸ List.cons_ne_nil _ _
  · exact ht ▸ .head _

end Formulary.Registry
