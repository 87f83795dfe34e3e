import Formulary.Proofs.Reordering
import Formulary.Registry
import Mathlib

/-! What a registry document loads.

Whether an entry of a document is wrong does not depend on what is stored by then. So loading
is the search for the first fault and, where there is none, the storing of one entry after
the other (`ofDocument_record`). Members come in ascending order of their names; hence the
first fault is the one with the least place (`Offence`), and a table with the name of the
default table is stored before all formulas at the top, which replace its entries
(`Holds`). -/
namespace Formulary.Registry

/-! ### What a document says -/

/-- A text that compiles. -/
def IsFormula (d : Document) : Prop :=
  ∃ source f, d = .text source ∧ Formula.compile source = .ok f

/-- A record of texts that compile. -/
def IsTable (d : Document) : Prop :=
  ∃ entries, d = .record entries ∧ ∀ entry ∈ entries, IsFormula entry.2

/-- The formulas that the members of a document put into tables. A formula at the top goes
into the default table, in the place of one that a table of that name has under its key. -/
inductive Holds (members : List (String × Document)) : String → String → Formula → Prop where
  | top {key source : String} {f : Formula} (h : (key, .text source) ∈ members)
      (hf : Formula.compile source = .ok f) : Holds members defaultTable key f
  | entry {table key source : String} {entries : List (String × Document)} {f : Formula}
      (ht : (table, .record entries) ∈ members) (h : (key, .text source) ∈ entries)
      (hf : Formula.compile source = .ok f)
      (htop : table = defaultTable → ∀ source', (key, .text source') ∉ members) :
      Holds members table key f

/-- What is wrong with a member of a given name, and with which entry if it is a table. -/
inductive Fault (name : String) : Document → Option String → RegistryError → Prop where
  | shape {d : Document} (htext : ∀ source, d ≠ .text source)
      (hrecord : ∀ entries, d ≠ .record entries) : Fault name d none (.badShape name)
  | formula {source : String} {cause : ParseError} (h : Formula.compile source = .error cause) :
      Fault name (.text source) none (.badFormula defaultTable name cause)
  | entryShape {key : String} {d : Document} {entries : List (String × Document)}
      (hd : (key, d) ∈ entries) (htext : ∀ source, d ≠ .text source) :
      Fault name (.record entries) (some key) (.badShape s!"{name}.{key}")
  | entryFormula {key source : String} {cause : ParseError} {entries : List (String × Document)}
      (hd : (key, .text source) ∈ entries) (h : Formula.compile source = .error cause) :
      Fault name (.record entries) (some key) (.badFormula name key cause)

/-- The fault that comes first in ascending order of names, and of keys within a table. -/
def FirstFault (members : List (String × Document)) (e : RegistryError) : Prop :=
  ∃ name d key, (name, d) ∈ members ∧ Fault name d key e ∧
    ∀ name' d' key' e', (name', d') ∈ members → Fault name' d' key' e' →
      name < name' ∨ name = name' ∧ ∀ k ∈ key, ∀ k' ∈ key', k ≤ k'

/-! ### Faults are found without storing -/

theorem foldlM_eq_of_fault {σ α ε : Type} {step : σ → α → Except ε σ} {fault : α → Option ε}
    {next : σ → α → σ}
    (h : ∀ s a, step s a = (fault a).elim (.ok (next s a)) .error) (s : σ) (as : List α) :
    as.foldlM step s = (as.findSome? fault).elim (.ok (as.foldl next s)) .error := by
  induction as generalizing s with
  | nil => rfl
  | cons a as ih =>
    rw [List.foldlM_cons, h, List.findSome?_cons]
    cases fault a with
    | some e => rfl
    | none => exact ih _

/-- The formula of an entry. -/
def formula? : Document → Option Formula
  | .text source => (Formula.compile source).toOption
  | _ => none

/-- What is wrong with an entry that should be a formula. -/
def entryFault (table key label : String) : Document → Option RegistryError
  | .text source =>
    match Formula.compile source with
    | .ok _ => none
    | .error cause => some (.badFormula table key cause)
  | _ => some (.badShape label)

def store (r : Registry) (table key : String) (d : Document) : Registry :=
  match formula? d with
  | some f => r.put table key f
  | none => r

def tableFault (table : String) (entries : List (String × Document)) : Option RegistryError :=
  entries.findSome? fun entry => entryFault table entry.1 s!"{table}.{entry.1}" entry.2

def storeTable (r : Registry) (table : String) (entries : List (String × Document)) : Registry :=
  entries.foldl (fun r entry => r.store table entry.1 entry.2) r

/-- What is wrong with a member. -/
def memberFault (member : String × Document) : Option RegistryError :=
  match member.2 with
  | .record entries => tableFault member.1 entries
  | d => entryFault defaultTable member.1 member.1 d

def storeMember (r : Registry) (member : String × Document) : Registry :=
  match member.2 with
  | .record entries => r.storeTable member.1 entries
  | d => r.store defaultTable member.1 d

theorem insert_eq_of_fault (r : Registry) (table key label source : String) :
    r.insert table key source = (entryFault table key label (.text source)).elim
      (.ok (r.store table key (.text source))) .error := by
  rw [insert_eq]
  simp only [entryFault, store, formula?]
  cases Formula.compile source <;> rfl

theorem insertTable_eq (r : Registry) (table : String) (entries : List (String × Document)) :
    r.insertTable table entries =
      (tableFault table entries).elim (.ok (r.storeTable table entries)) .error := by
  rw [insertTable, tableFault, storeTable]
  refine foldlM_eq_of_fault (fun r entry => ?_) r entries
  obtain ⟨key, d⟩ := entry
  cases d with
  | text source => exact insert_eq_of_fault r table key _ source
  | null | bool | integer | double | list | record => rfl

theorem ofDocument_record (members : List (String × Document)) :
    ofDocument (.record members) =
      (members.findSome? memberFault).elim (.ok (members.foldl storeMember empty)) .error := by
  rw [ofDocument]
  refine foldlM_eq_of_fault (fun r member => ?_) empty members
  obtain ⟨name, d⟩ := member
  cases d with
  | text source => exact insert_eq_of_fault r defaultTable name name source
  | record entries => exact insertTable_eq r name entries
  | null | bool | integer | double | list => rfl

/-! ### What is stored -/

theorem formula?_eq_some_iff {d : Document} {f : Formula} :
    formula? d = some f ↔ ∃ source, d = .text source ∧ Formula.compile source = .ok f := by
  cases d with
  | text source => cases h : Formula.compile source <;> simp [formula?, Except.toOption, h]
  | null | bool | integer | double | list | record => simp [formula?]

/-- The formula of an entry of a table. -/
def entryFormula? (key : String) : Document → Option Formula
  | .record entries => (entries.lookup key).bind formula?
  | _ => none

/-- The formula that the members have at the top for a key, if the table is the default one. -/
def topFormula? (members : List (String × Document)) (table key : String) : Option Formula :=
  if table = defaultTable then (members.lookup key).bind formula? else none

theorem get?_store (r : Registry) (table key t k : String) (d : Document) :
    (r.store table key d).get? t k =
      (if t = table ∧ k = key then formula? d else none).or (r.get? t k) := by
  rw [store]
  cases formula? d with
  | none => simp
  | some f =>
    simp only [get?_put]
    split <;> rfl

theorem get?_storeTable (r : Registry) (table t k : String) {entries : List (String × Document)}
    (h : Keyed.Sorted entries) :
    (r.storeTable table entries).get? t k =
      (if t = table then (entries.lookup k).bind formula? else none).or (r.get? t k) := by
  induction entries generalizing r with
  | nil => simp [storeTable]
  | cons entry rest ih =>
    rw [storeTable, List.foldl_cons]
    refine (ih _ h.tail).trans ?_
    rw [get?_store, Keyed.lookup_cons]
    by_cases hk : k = entry.1
    · simp [hk, h.lookup_head]
    · simp [hk]

/-- Every table among the members is in ascending order of its keys. -/
def SortedTables (members : List (String × Document)) : Prop :=
  ∀ table entries, (table, .record entries) ∈ members → Keyed.Sorted entries

theorem get?_storeMember (r : Registry) (name t k : String) {d : Document}
    (h : ∀ entries, d = .record entries → Keyed.Sorted entries) :
    (r.storeMember (name, d)).get? t k =
      (if t = defaultTable ∧ k = name then formula? d else none).or
        ((if t = name then entryFormula? k d else none).or (r.get? t k)) := by
  cases d with
  | record entries =>
    simp [storeMember, get?_storeTable r name t k (h entries rfl), formula?, entryFormula?]
  | null | bool | integer | double | text | list => simp [storeMember, get?_store, entryFormula?]

theorem not_lt_defaultTable (name : String) : ¬ name < defaultTable :=
  List.not_lt_nil name.toList

/-- The default table comes before all other members, so it is stored before what is at the
top. -/
theorem get?_storeMembers (r : Registry) (t k : String) {members : List (String × Document)}
    (h : Keyed.Sorted members) (htables : SortedTables members) :
    (members.foldl storeMember r).get? t k =
      (topFormula? members t k).or
        (((members.lookup t).bind (entryFormula? k)).or (r.get? t k)) := by
  simp only [topFormula?]
  induction members generalizing r with
  | nil => simp
  | cons member rest ih =>
    obtain ⟨name, d⟩ := member
    have hd : ∀ entries, d = .record entries → Keyed.Sorted entries :=
      fun entries hd => htables name entries (hd ▸ List.mem_cons_self)
    have hhead : rest.lookup name = none := h.lookup_head
    have hdefault : rest.lookup defaultTable = none := by
      refine Option.eq_none_iff_forall_ne_some.2 fun e he => not_lt_defaultTable name ?_
      exact h.lt_of_mem (h.tail.lookup_eq_some_iff.1 he)
    rw [List.foldl_cons, ih _ h.tail fun table entries hmem =>
      htables table entries (List.mem_cons_of_mem _ hmem), get?_storeMember r name t k hd,
      Keyed.lookup_cons, Keyed.lookup_cons]
    by_cases ht : t = defaultTable
    · subst ht
      by_cases hk : k = name
      · subst hk
        by_cases hname : defaultTable = k <;> simp [hhead, hdefault, hname]
      · by_cases hname : defaultTable = name <;> simp [hhead, hdefault, hname, hk]
    · by_cases hname : t = name
      · subst hname
        simp [ht, hhead]
      · simp [ht, hname]

section
variable {members : List (String × Document)} {t k : String} {f : Formula}

theorem lookup_formula?_iff {entries : List (String × Document)} (h : Keyed.Sorted entries) :
    (entries.lookup k).bind formula? = some f ↔
      ∃ source, (k, .text source) ∈ entries ∧ Formula.compile source = .ok f := by
  simp only [Option.bind_eq_some_iff, formula?_eq_some_iff, h.lookup_eq_some_iff]
  constructor
  · rintro ⟨_, hmem, source, rfl, hf⟩
    exact ⟨source, hmem, hf⟩
  · rintro ⟨source, hmem, hf⟩
    exact ⟨_, hmem, source, rfl, hf⟩

theorem topFormula?_iff (h : Keyed.Sorted members) :
    topFormula? members t k = some f ↔
      t = defaultTable ∧ ∃ source, (k, .text source) ∈ members ∧
        Formula.compile source = .ok f := by
  rw [topFormula?]
  split
  · next ht => simp only [ht, true_and, lookup_formula?_iff h]
  · next ht => simp only [ht, false_and, reduceCtorEq]

theorem lookup_entryFormula?_iff (h : Keyed.Sorted members) (htables : SortedTables members) :
    (members.lookup t).bind (entryFormula? k) = some f ↔
      ∃ entries source, (t, .record entries) ∈ members ∧ (k, .text source) ∈ entries ∧
        Formula.compile source = .ok f := by
  constructor
  · intro hfound
    obtain ⟨d, hd, hentry⟩ := Option.bind_eq_some_iff.1 hfound
    cases d with
    | record entries =>
      have ht := h.lookup_eq_some_iff.1 hd
      obtain ⟨source, hmem, hf⟩ := (lookup_formula?_iff (htables _ _ ht)).1 hentry
      exact ⟨entries, source, ht, hmem, hf⟩
    | null | bool | integer | double | text | list => cases hentry
  · rintro ⟨entries, source, ht, hmem, hf⟩
    refine Option.bind_eq_some_iff.2 ⟨_, h.lookup_eq_some_iff.2 ht, ?_⟩
    exact (lookup_formula?_iff (htables _ _ ht)).2 ⟨source, hmem, hf⟩

theorem holds_iff (h : Keyed.Sorted members) (htables : SortedTables members)
    (hgood : ∀ member ∈ members, IsFormula member.2 ∨ IsTable member.2) :
    Holds members t k f ↔
      (topFormula? members t k).or ((members.lookup t).bind (entryFormula? k)) = some f := by
  rw [Option.or_eq_some_iff]
  constructor
  · intro hholds
    cases hholds with
    | top hmem hf => exact .inl ((topFormula?_iff h).2 ⟨rfl, _, hmem, hf⟩)
    | entry ht hmem hf htop =>
      refine .inr ⟨Option.eq_none_iff_forall_ne_some.2 fun f' hf' => ?_,
        (lookup_entryFormula?_iff h htables).2 ⟨_, _, ht, hmem, hf⟩⟩
      obtain ⟨hdefault, source', hmem', -⟩ := (topFormula?_iff h).1 hf'
      exact htop hdefault source' hmem'
  · rintro (htop | ⟨hnone, hentry⟩)
    · obtain ⟨rfl, source, hmem, hf⟩ := (topFormula?_iff h).1 htop
      exact .top hmem hf
    · obtain ⟨entries, source, ht, hmem, hf⟩ := (lookup_entryFormula?_iff h htables).1 hentry
      refine .entry ht hmem hf ?_
      rintro rfl source' hmem'
      rcases hgood _ hmem' with ⟨_, f', hsource, hf'⟩ | ⟨_, hrecord, -⟩
      · cases hsource
        exact nomatch hnone.symm.trans ((topFormula?_iff h).2 ⟨rfl, source', hmem', hf'⟩)
      · cases hrecord

end

/-! ### Which fault is reported -/

theorem entryFault_eq_none_iff {table key label : String} {d : Document} :
    entryFault table key label d = none ↔ IsFormula d := by
  cases d with
  | text source => cases h : Formula.compile source <;> simp [entryFault, IsFormula, h]
  | null | bool | integer | double | list | record => simp [entryFault, IsFormula]

theorem entryFault_eq_some_iff {table key label : String} {d : Document} {e : RegistryError} :
    entryFault table key label d = some e ↔
      (∀ source, d ≠ .text source) ∧ e = .badShape label ∨
      ∃ source cause, d = .text source ∧ Formula.compile source = .error cause ∧
        e = .badFormula table key cause := by
  cases d with
  | text source => cases h : Formula.compile source <;> simp [entryFault, h, eq_comm]
  | null | bool | integer | double | list | record => simp [entryFault, eq_comm]

theorem memberFault_eq_none_iff {member : String × Document} :
    memberFault member = none ↔ IsFormula member.2 ∨ IsTable member.2 := by
  obtain ⟨name, d⟩ := member
  cases d with
  | record entries =>
    simp [memberFault, tableFault, List.findSome?_eq_none_iff, entryFault_eq_none_iff,
      IsFormula, IsTable]
  | null | bool | integer | double | text | list =>
    simp [memberFault, entryFault_eq_none_iff, IsTable]

theorem fault_record_iff {name : String} {entries : List (String × Document)}
    {key : Option String} {e : RegistryError} :
    Fault name (.record entries) key e ↔
      ∃ entry ∈ entries, key = some entry.1 ∧
        entryFault name entry.1 s!"{name}.{entry.1}" entry.2 = some e := by
  constructor
  · intro h
    cases h with
    | shape _ hrecord => exact absurd rfl (hrecord entries)
    | entryShape hd htext =>
      exact ⟨_, hd, rfl, entryFault_eq_some_iff.2 (.inl ⟨htext, rfl⟩)⟩
    | entryFormula hd hcause =>
      exact ⟨_, hd, rfl, entryFault_eq_some_iff.2 (.inr ⟨_, _, rfl, hcause, rfl⟩)⟩
  · rintro ⟨⟨key, d⟩, hd, rfl, he⟩
    rcases entryFault_eq_some_iff.1 he with ⟨htext, rfl⟩ | ⟨source, cause, rfl, hcause, rfl⟩
    · exact .entryShape hd htext
    · exact .entryFormula hd hcause

theorem fault_iff_of_ne_record {name : String} {d : Document} (hd : ∀ entries, d ≠ .record entries)
    {key : Option String} {e : RegistryError} :
    Fault name d key e ↔ key = none ∧ entryFault defaultTable name name d = some e := by
  constructor
  · intro h
    cases h with
    | shape htext => exact ⟨rfl, entryFault_eq_some_iff.2 (.inl ⟨htext, rfl⟩)⟩
    | formula hcause =>
      exact ⟨rfl, entryFault_eq_some_iff.2 (.inr ⟨_, _, rfl, hcause, rfl⟩)⟩
    | entryShape | entryFormula => exact absurd rfl (hd _)
  · rintro ⟨rfl, he⟩
    rcases entryFault_eq_some_iff.1 he with ⟨htext, rfl⟩ | ⟨source, cause, rfl, hcause, rfl⟩
    · exact .shape htext hd
    · exact .formula hcause

theorem memberFault_eq_some_iff {name : String} {d : Document} {e : RegistryError}
    (h : ∀ entries, d = .record entries → Keyed.Sorted entries) :
    memberFault (name, d) = some e ↔
      ∃ key, Fault name d key e ∧
        ∀ key' e', Fault name d key' e' → ∀ k ∈ key, ∀ k' ∈ key', k ≤ k' := by
  by_cases hrecord : ∃ entries, d = .record entries
  · obtain ⟨entries, rfl⟩ := hrecord
    simp only [fault_record_iff]
    refine (h entries rfl).findSome?_eq_some_iff.trans ?_
    constructor
    · rintro ⟨entry, hentry, he, hleast⟩
      refine ⟨some entry.1, ⟨entry, hentry, rfl, he⟩, ?_⟩
      rintro _ e' ⟨other, hother, rfl, he'⟩ _ ⟨⟩ _ ⟨⟩
      exact hleast other hother (Option.isSome_of_eq_some he')
    · rintro ⟨_, ⟨entry, hentry, rfl, he⟩, hleast⟩
      refine ⟨entry, hentry, he, fun other hother hsome => ?_⟩
      obtain ⟨e', he'⟩ := Option.isSome_iff_exists.1 hsome
      exact hleast _ e' ⟨other, hother, rfl, he'⟩ _ rfl _ rfl
  · have hne : ∀ entries, d ≠ .record entries := fun entries heq => hrecord ⟨entries, heq⟩
    simp only [fault_iff_of_ne_record hne]
    have hfault : memberFault (name, d) = entryFault defaultTable name name d := by
      cases d with
      | record entries => exact absurd rfl (hne entries)
      | null | bool | integer | double | text | list => rfl
    rw [hfault]
    constructor
    · exact fun he => ⟨none, ⟨rfl, he⟩, fun _ _ _ _ hk => nomatch hk⟩
    · exact fun ⟨_, ⟨_, he⟩, _⟩ => he

theorem Fault.isSome {name : String} {d : Document} {key : Option String} {e : RegistryError}
    (h : Fault name d key e) : (memberFault (name, d)).isSome := by
  refine Option.isSome_iff_ne_none.2 fun hnone => ?_
  rcases memberFault_eq_none_iff.1 hnone with ⟨source, f, rfl, hf⟩ | ⟨entries, rfl, hentries⟩
  · cases h with
    | shape htext => exact htext source rfl
    | formula hcause => exact nomatch hcause.symm.trans hf
  · obtain ⟨entry, hentry, -, he⟩ := fault_record_iff.1 h
    exact nomatch (entryFault_eq_none_iff.2 (hentries entry hentry)).symm.trans he

theorem firstFault_iff {members : List (String × Document)} (h : Keyed.Sorted members)
    (htables : SortedTables members) {e : RegistryError} :
    members.findSome? memberFault = some e ↔ FirstFault members e := by
  have hmember {name : String} {d : Document} (hmem : (name, d) ∈ members) (e : RegistryError) :=
    @memberFault_eq_some_iff name d e fun entries hd => htables name entries (hd ▸ hmem)
  rw [h.findSome?_eq_some_iff]
  constructor
  · rintro ⟨⟨name, d⟩, hmem, he, hleast⟩
    obtain ⟨key, hfault, hkeys⟩ := (hmember hmem e).1 he
    refine ⟨name, d, key, hmem, hfault, fun name' d' key' e' hmem' hfault' => ?_⟩
    have hle : name ≤ name' := hleast (name', d') hmem' hfault'.isSome
    by_cases hname : name = name'
    · subst hname
      obtain rfl : d = d' := Option.some.inj <|
        (h.lookup_eq_some_iff.2 hmem).symm.trans (h.lookup_eq_some_iff.2 hmem')
      exact .inr ⟨rfl, hkeys key' e' hfault'⟩
    · exact .inl (Std.lt_of_le_of_ne hle hname)
  · rintro ⟨name, d, key, hmem, hfault, hfirst⟩
    refine ⟨(name, d), hmem, (hmember hmem e).2 ⟨key, hfault, fun key' e' hfault' => ?_⟩, ?_⟩
    · exact ((hfirst name d key' e' hmem hfault').resolve_left (String.lt_irrefl name)).2
    · rintro ⟨name', d'⟩ hmem' hsome
      obtain ⟨e', he'⟩ := Option.isSome_iff_exists.1 hsome
      obtain ⟨key', hfault', -⟩ := (hmember hmem' e').1 he'
      rcases hfirst name' d' key' e' hmem' hfault' with hlt | ⟨rfl, -⟩
      · exact Std.le_of_lt hlt
      · exact String.le_refl name

/-! ### Texts -/

theorem sortedTables_of_ofString? {text : String} {members : List (String × Document)}
    (h : Document.ofString? text = some (.record members)) :
    Keyed.Sorted members ∧ SortedTables members := by
  obtain ⟨d, -, hd⟩ := Option.map_eq_some_iff.1 h
  refine ⟨Document.sorted_of_ordered hd, fun table entries hmem => ?_⟩
  obtain ⟨d', hd'⟩ := Document.exists_ordered_of_mem hd hmem
  exact Document.sorted_of_ordered hd'.symm

variable {explain : String → String}

theorem ofText_of_record {text : String} {members : List (String × Document)}
    (h : Document.ofString? text = some (.record members)) :
    ofText explain text =
      (members.findSome? memberFault).elim (.ok (members.foldl storeMember empty)) .error := by
  rw [ofText, h]
  exact ofDocument_record members

theorem ofText_eq_ok {text : String} {r : Registry} (h : ofText explain text = .ok r) :
    ∃ members, Document.ofString? text = some (.record members) ∧
      (∀ member ∈ members, IsFormula member.2 ∨ IsTable member.2) ∧
      r = members.foldl storeMember empty := by
  cases hd : Document.ofString? text with
  | none => rw [ofText, hd] at h; cases h
  | some d =>
    cases d with
    | record members =>
      rw [ofText_of_record hd] at h
      refine ⟨members, rfl, ?_⟩
      cases hfault : members.findSome? memberFault with
      | none =>
        rw [hfault] at h
        refine ⟨fun member hmem => ?_, (Except.ok.inj h).symm⟩
        exact memberFault_eq_none_iff.1 (List.findSome?_eq_none_iff.1 hfault member hmem)
      | some e => rw [hfault] at h; cases h
    | null | bool | integer | double | text | list => rw [ofText, hd] at h; cases h

theorem exists_ofText_iff {text : String} :
    (∃ r, ofText explain text = .ok r) ↔ ∃ members,
      Document.ofString? text = some (.record members) ∧
        ∀ member ∈ members, IsFormula member.2 ∨ IsTable member.2 := by
  constructor
  · rintro ⟨r, hr⟩
    obtain ⟨members, hmembers, hgood, -⟩ := ofText_eq_ok hr
    exact ⟨members, hmembers, hgood⟩
  · rintro ⟨members, hmembers, hgood⟩
    have hnone : members.findSome? memberFault = none :=
      List.findSome?_eq_none_iff.2 fun member hmem => memberFault_eq_none_iff.2 (hgood member hmem)
    exact ⟨_, by rw [ofText_of_record hmembers, hnone, Option.elim_none]⟩

theorem get?_eq_some_iff_holds {text : String} {r : Registry} {members : List (String × Document)}
    (hr : ofText explain text = .ok r) (hmembers : Document.ofString? text = some (.record members))
    {table key : String} {f : Formula} :
    r.get? table key = some f ↔ Holds members table key f := by
  obtain ⟨members', hmembers', hgood, rfl⟩ := ofText_eq_ok hr
  obtain rfl : members = members' :=
    Document.record.inj (Option.some.inj (hmembers.symm.trans hmembers'))
  obtain ⟨hsorted, htables⟩ := sortedTables_of_ofString? hmembers
  have hempty : empty.get? table key = none := rfl
  rw [get?_storeMembers _ _ _ hsorted htables, hempty, Option.or_none,
    holds_iff hsorted htables hgood]

theorem ofText_eq_error_iff {text : String} {e : RegistryError} :
    ofText explain text = .error e ↔
      (Document.ofString? text = none ∧ e = .notADocument (explain text)) ∨
      (∃ d, Document.ofString? text = some d ∧ (∀ members, d ≠ .record members) ∧
        e = .badShape "<root>") ∨
      ∃ members, Document.ofString? text = some (.record members) ∧ FirstFault members e := by
  cases hd : Document.ofString? text with
  | none =>
    have h : ofText explain text = .error (.notADocument (explain text)) := by rw [ofText, hd]; rfl
    simp [h, eq_comm]
  | some d =>
    cases d with
    | record members =>
      obtain ⟨hsorted, htables⟩ := sortedTables_of_ofString? hd
      rw [ofText_of_record hd]
      simp only [reduceCtorEq, false_and, false_or, Option.some.injEq, exists_eq_left',
        Document.record.injEq, ← firstFault_iff hsorted htables]
      cases members.findSome? memberFault <;> simp
    | null | bool | integer | double | text | list =>
      have h : ofText explain text = .error (.badShape "<root>") := by rw [ofText, hd]; rfl
      simp [h, eq_comm]

/-- Where members of different names stand makes no difference. -/
theorem ofText_reordered {text text' : String} {d d' : Document}
    (hd : Document.written? text = some d) (hd' : Document.written? text' = some d')
    (h : d.Reordered d') : ofText explain text' = ofText explain text := by
  rw [ofText, ofText, Document.ofString?, Document.ofString?, hd, hd', Option.map_some,
    Option.map_some, h.ordered_eq]

/-- **What a registry document loads.** A text gives a registry just if it holds a record of
formulas and tables of formulas. The registry then has what the document says and nothing
else. Any other text gives the error of its first fault. In what order members of
different names are written makes no difference to either. -/
theorem ofText_loads (explain : String → String) (text : String) :
    ((∃ r, ofText explain text = .ok r) ↔ ∃ members,
      Document.ofString? text = some (.record members) ∧
        ∀ member ∈ members, IsFormula member.2 ∨ IsTable member.2) ∧
    (∀ r members, ofText explain text = .ok r → Document.ofString? text = some (.record members) →
      (∀ key source, (key, .text source) ∈ members →
        ∃ f, Formula.compile source = .ok f ∧ r.getDefault? key = some f) ∧
      ∀ table key f, r.get? table key = some f ↔ Holds members table key f) ∧
    (∀ e, ofText explain text = .error e ↔
      (Document.ofString? text = none ∧ e = .notADocument (explain text)) ∨
      (∃ d, Document.ofString? text = some d ∧ (∀ members, d ≠ .record members) ∧
        e = .badShape "<root>") ∨
      ∃ members, Document.ofString? text = some (.record members) ∧ FirstFault members e) ∧
    ∀ text' d d', Document.written? text = some d → Document.written? text' = some d' →
      d.Reordered d' → ofText explain text' = ofText explain text := by
  refine ⟨exists_ofText_iff, fun r members hr hmembers => ⟨fun key source hmem => ?_,
    fun table key f => get?_eq_some_iff_holds hr hmembers⟩, fun e => ofText_eq_error_iff,
    fun text' d d' hd hd' h => ofText_reordered hd hd' h⟩
  obtain ⟨members', hmembers', hgood, -⟩ := ofText_eq_ok hr
  obtain rfl : members = members' :=
    Document.record.inj (Option.some.inj (hmembers.symm.trans hmembers'))
  rcases hgood _ hmem with ⟨_, f, hsource, hf⟩ | ⟨_, hrecord, -⟩
  · obtain rfl := Document.text.inj hsource
    exact ⟨f, hf, (get?_eq_some_iff_holds hr hmembers).2 (.top hmem hf)⟩
  · cases hrecord

/-- A formula at the top stands for one in a table with the name of the default table, wherever
the two are written. -/
theorem ofText_loads_default_table :
    let explain (_ : String) := "expected value at line 1 column 1"
    let text := "\x7b\"k\": \"2\", \"\": \x7b\"x\": \"1\", \"k\": \"1\"\x7d\x7d"
    let text' := "\x7b\"\": \x7b\"k\": \"1\", \"x\": \"1\"\x7d, \"k\": \"2\"\x7d"
    ofText explain text' = ofText explain text ∧ ∃ r, ofText explain text = .ok r ∧
      r.getDefault? "k" = some ⟨"2", .integer 2⟩ ∧ r.get? "" "x" = some ⟨"1", .integer 1⟩ := by
  intro explain text text'
  let table : List (String × Document) := [("k", .text "1"), ("x", .text "1")]
  let table' : List (String × Document) := [("x", .text "1"), ("k", .text "1")]
  have hwritten : Document.written? text =
      some (.record [("k", .text "2"), ("", .record table')]) := by cbv
  have hwritten' : Document.written? text' =
      some (.record [("", .record table), ("k", .text "2")]) := by cbv
  have hmembers : Document.ofString? text =
      some (.record [("", .record table), ("k", .text "2")]) := by
    rw [Document.ofString?, hwritten]
    rfl
  have h1 : Formula.compile "1" = .ok ⟨"1", .integer 1⟩ := by cbv
  have h2 : Formula.compile "2" = .ok ⟨"2", .integer 2⟩ := by cbv
  have htable : IsTable (.record table) :=
    ⟨_, rfl, List.forall_mem_cons.2 ⟨⟨_, _, rfl, h1⟩, List.forall_mem_singleton.2 ⟨_, _, rfl, h1⟩⟩⟩
  have hreordered : Document.Reordered (.record [("k", .text "2"), ("", .record table')])
      (.record [("", .record table), ("k", .text "2")]) :=
    .trans (Document.reordered_of_perm (.swap _ _ []) (by decide))
      (.field (.swap (by decide) [] []) "" [] [("k", .text "2")])
  obtain ⟨hsucceeds, hloads, -, hreorder⟩ := ofText_loads explain text
  obtain ⟨r, hr⟩ := hsucceeds.2 ⟨_, hmembers, List.forall_mem_cons.2 ⟨.inr htable,
    List.forall_mem_singleton.2 (.inl ⟨_, _, rfl, h2⟩)⟩⟩
  obtain ⟨-, hholds⟩ := hloads r _ hr hmembers
  refine ⟨hreorder text' _ _ hwritten hwritten' hreordered, r, hr, ?_, ?_⟩
  · exact (hholds "" "k" _).2 (.top (.tail _ (.head _)) h2)
  · refine (hholds "" "x" _).2 (.entry (.head _) (.tail _ (.head _)) h1 fun _ source' hmem => ?_)
    simp at hmem

end Formulary.Registry
