/-! Tables with text keys: association lists in ascending order of their keys.

Keys are ordered by code points. `insert` keeps the order and replaces the entry of a
key that is there; what a look-up finds after it (`lookup_insert`) needs no order. -/
namespace Formulary.Keyed

variable {α β : Type}

def insert (key : String) (value : α) : List (String × α) → List (String × α)
  | [] => [(key, value)]
  | (k, v) :: rest =>
    if key < k then (key, value) :: (k, v) :: rest
    else if key = k then (key, value) :: rest
    else (k, v) :: insert key value rest

/-- A table from entries in any order; of two with one key the later wins. -/
def ofList (entries : List (String × α)) : List (String × α) :=
  entries.foldl (fun table entry => insert entry.1 entry.2 table) []

def keys (table : List (String × α)) : List String :=
  table.map Prod.fst

def contains (key : String) (table : List (String × α)) : Bool :=
  (table.lookup key).isSome

/-- Strictly ascending keys. -/
def Sorted (table : List (String × α)) : Prop :=
  (keys table).Pairwise (· < ·)

theorem lookup_cons (k k' : String) (v : α) (table : List (String × α)) :
    ((k', v) :: table).lookup k = if k = k' then some v else table.lookup k := by
  rw [List.lookup_cons]
  by_cases h : k = k'
  · simp [h]
  · simp only [beq_eq_false_iff_ne.2 h, if_neg h]

theorem lookup_insert (key k : String) (value : α) (table : List (String × α)) :
    (insert key value table).lookup k = if k = key then some value else table.lookup k := by
  induction table with
  | nil => exact lookup_cons k key value []
  | cons entry rest ih =>
    obtain ⟨k', v⟩ := entry
    unfold insert
    split
    · exact lookup_cons k key value _
    · split
      · next h =>
        subst h
        rw [lookup_cons, lookup_cons]
        split <;> rfl
      · next hne =>
        rw [lookup_cons, lookup_cons, ih]
        by_cases h : k = k'
        · simp [h, Ne.symm hne]
        · simp [h]

theorem isSome_lookup_iff {key : String} {table : List (String × α)} :
    (table.lookup key).isSome ↔ key ∈ keys table := by
  simp [List.lookup_isSome_iff, keys]

theorem mem_keys_insert {key k : String} {value : α} {table : List (String × α)} :
    k ∈ keys (insert key value table) ↔ k = key ∨ k ∈ keys table := by
  induction table with
  | nil => simp [insert, keys]
  | cons entry rest ih =>
    obtain ⟨k', v⟩ := entry
    unfold insert
    split
    · simp [keys]
    · split
      · next h => simp [keys, h]
      · simp only [keys, List.map_cons, List.mem_cons] at ih ⊢
        rw [ih]
        exact or_left_comm

/-- Insertion keeps the order. -/
theorem sorted_insert (key : String) (value : α) {table : List (String × α)} (h : Sorted table) :
    Sorted (insert key value table) := by
  induction table with
  | nil => simp [insert, Sorted, keys]
  | cons entry rest ih =>
    obtain ⟨k, v⟩ := entry
    obtain ⟨hk, hrest⟩ := List.pairwise_cons.1 h
    unfold insert
    split
    · next hlt =>
      refine List.pairwise_cons.2 ⟨fun k' hk' => ?_, h⟩
      rcases List.mem_cons.1 hk' with rfl | hk'
      · exact hlt
      · exact String.lt_trans hlt (hk k' hk')
    · split
      · next heq => exact heq ▸ h
      · next hlt hne =>
        refine List.pairwise_cons.2 ⟨fun k' hk' => ?_, ih hrest⟩
        rcases mem_keys_insert.1 hk' with rfl | hk'
        · exact String.not_le.1 fun hle => hne (String.le_antisymm hle (String.not_lt.1 hlt))
        · exact hk k' hk'

/-- Insertions under different keys may change places. -/
theorem insert_comm {key key' : String} (h : key ≠ key') (value value' : α)
    (table : List (String × α)) :
    insert key value (insert key' value' table) =
      insert key' value' (insert key value table) := by
  induction table with
  | nil => grind [insert]
  | cons entry rest ih => grind [insert]

theorem mem_of_mem_insert {key : String} {value : α} {table : List (String × α)}
    {entry : String × α} (h : entry ∈ insert key value table) :
    entry = (key, value) ∨ entry ∈ table := by
  induction table with
  | nil => exact .inl (List.mem_singleton.1 h)
  | cons first rest ih =>
    unfold insert at h
    split at h
    · exact List.mem_cons.1 h
    · split at h
      · exact (List.mem_cons.1 h).imp_right (List.mem_cons_of_mem _)
      · rcases List.mem_cons.1 h with rfl | h
        · exact .inr List.mem_cons_self
        · exact (ih h).imp_right (List.mem_cons_of_mem _)

theorem sorted_ofList (entries : List (String × α)) : Sorted (ofList entries) :=
  List.foldlRecOn entries _ .nil fun _ h entry _ => sorted_insert entry.1 entry.2 h

theorem mem_of_mem_ofList {entries : List (String × α)} :
    ∀ entry ∈ ofList entries, entry ∈ entries := by
  refine List.foldlRecOn (motive := fun table => ∀ entry ∈ table, entry ∈ entries) entries _
    (List.forall_mem_nil _) fun table h first hfirst entry hentry => ?_
  rcases mem_of_mem_insert hentry with rfl | hentry
  · exact hfirst
  · exact h entry hentry

/-! ### Look-ups in a sorted table -/

section
variable {key : String} {value : α} {entry other : String × α} {rest table : List (String × α)}

theorem Sorted.tail (h : Sorted (entry :: rest)) : Sorted rest :=
  (List.pairwise_cons.1 h).2

theorem Sorted.lt_of_mem (h : Sorted (entry :: rest)) (hmem : other ∈ rest) : entry.1 < other.1 :=
  (List.pairwise_cons.1 h).1 other.1 (List.mem_map_of_mem hmem)

theorem Sorted.lookup_eq_some_iff (h : Sorted table) :
    table.lookup key = some value ↔ (key, value) ∈ table := by
  induction table with
  | nil => simp
  | cons entry rest ih =>
    rw [lookup_cons, List.mem_cons]
    by_cases hkey : key = entry.1
    · have hnot : (key, value) ∉ rest := fun hmem => by
        have hlt := h.lt_of_mem hmem
        exact String.lt_irrefl key (hkey ▸ hlt)
      simp [hkey ▸ hnot, hkey, Prod.ext_iff, eq_comm]
    · simp [hkey, ih h.tail, Prod.ext_iff]

theorem Sorted.lookup_head (h : Sorted (entry :: rest)) : rest.lookup entry.1 = none := by
  refine Option.eq_none_iff_forall_ne_some.2 fun value hvalue => ?_
  have hlt := h.lt_of_mem (h.tail.lookup_eq_some_iff.1 hvalue)
  exact String.lt_irrefl _ hlt

/-- The first entry that is found is the one with the least key. -/
theorem Sorted.findSome?_eq_some_iff (h : Sorted table) {f : String × α → Option β} {b : β} :
    table.findSome? f = some b ↔
      ∃ entry ∈ table, f entry = some b ∧
        ∀ other ∈ table, (f other).isSome → entry.1 ≤ other.1 := by
  induction table with
  | nil => simp
  | cons entry rest ih =>
    rw [List.findSome?_cons]
    cases hf : f entry with
    | some b' =>
      constructor
      · rintro ⟨⟩
        refine ⟨entry, List.mem_cons_self, hf, fun other hother _ => ?_⟩
        rcases List.mem_cons.1 hother with rfl | hother
        · exact String.le_refl _
        · exact Std.le_of_lt (h.lt_of_mem hother)
      · rintro ⟨found, hfound, hb, hleast⟩
        rcases List.mem_cons.1 hfound with rfl | hfound
        · exact hf.symm.trans hb
        · have hle := hleast entry List.mem_cons_self (by rw [hf]; rfl)
          exact absurd (h.lt_of_mem hfound) (String.not_lt.2 hle)
    | none =>
      rw [ih h.tail]
      constructor
      · rintro ⟨found, hfound, hb, hleast⟩
        refine ⟨found, List.mem_cons_of_mem _ hfound, hb, fun other hother hsome => ?_⟩
        rcases List.mem_cons.1 hother with rfl | hother
        · rw [hf] at hsome
          cases hsome
        · exact hleast other hother hsome
      · rintro ⟨found, hfound, hb, hleast⟩
        rcases List.mem_cons.1 hfound with rfl | hfound
        · exact nomatch hf.symm.trans hb
        · refine ⟨found, hfound, hb, fun other hother => ?_⟩
          exact hleast other (List.mem_cons_of_mem _ hother)

end

end Formulary.Keyed
