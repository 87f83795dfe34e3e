import Formulary.Document.Reader

/-! The order in which fields are written makes no difference.

Two written documents are `Reordered` if the one comes from the other by exchanging
neighbouring fields of different names, in records at any depth. Fields of one name keep
their order, for the last of them counts. The documents that they stand for are the same
(`Reordered.ordered_eq`), and their records are tables (`sorted_of_ordered`). -/
namespace Formulary.Document

theorem orderedItems_eq_map (items : List Document) : orderedItems items = items.map ordered := by
  induction items with
  | nil => rfl
  | cons d rest ih => rw [orderedItems, ih, List.map_cons]

theorem orderedFields_eq_map (fields : List (String × Document)) :
    orderedFields fields = fields.map fun field => (field.1, field.2.ordered) := by
  induction fields with
  | nil => rfl
  | cons field rest ih => rw [orderedFields, ih, List.map_cons]

/-! ### Records are tables -/

theorem sorted_of_ordered {d : Document} {fields : List (String × Document)}
    (h : d.ordered = .record fields) : Keyed.Sorted fields := by
  cases d with
  | record written =>
    rw [ordered] at h
    exact record.inj h ▸ Keyed.sorted_ofList _
  | null | bool | integer | double | text | list => cases h

theorem exists_ordered_of_mem {d e : Document} {fields : List (String × Document)}
    {name : String} (h : d.ordered = .record fields) (hmem : (name, e) ∈ fields) :
    ∃ d' : Document, e = d'.ordered := by
  cases d with
  | record written =>
    rw [ordered] at h
    obtain rfl := record.inj h
    have hmem := Keyed.mem_of_mem_ofList _ hmem
    rw [orderedFields_eq_map] at hmem
    obtain ⟨field, -, heq⟩ := List.mem_map.1 hmem
    exact ⟨field.2, (congrArg Prod.snd heq).symm⟩
  | null | bool | integer | double | text | list => cases h

/-! ### Written in another order -/

/-- One document written in two ways that differ in the order of fields. -/
inductive Reordered : Document → Document → Prop where
  | refl (d : Document) : Reordered d d
  | trans {d e f : Document} (h : Reordered d e) (h' : Reordered e f) : Reordered d f
  | swap {a b : String × Document} (hne : a.1 ≠ b.1) (before after : List (String × Document)) :
      Reordered (.record (before ++ a :: b :: after)) (.record (before ++ b :: a :: after))
  | field {d e : Document} (h : Reordered d e) (name : String)
      (before after : List (String × Document)) :
      Reordered (.record (before ++ (name, d) :: after)) (.record (before ++ (name, e) :: after))
  | item {d e : Document} (h : Reordered d e) (before after : List Document) :
      Reordered (.list (before ++ d :: after)) (.list (before ++ e :: after))

theorem Reordered.ordered_eq {d e : Document} (h : Reordered d e) : d.ordered = e.ordered := by
  induction h with
  | refl => rfl
  | trans _ _ ih ih' => exact ih.trans ih'
  | swap hne before after =>
    simp only [ordered, orderedFields_eq_map, Keyed.ofList, List.map_append, List.map_cons,
      List.foldl_append, List.foldl_cons]
    rw [Keyed.insert_comm hne]
  | field _ name before after ih =>
    simp only [ordered, orderedFields_eq_map, List.map_append, List.map_cons, ih]
  | item _ before after ih =>
    simp only [ordered, orderedItems_eq_map, List.map_append, List.map_cons, ih]

/-- Fields with distinct names may be written in any order. -/
theorem reordered_of_perm {fields fields' : List (String × Document)} (h : fields.Perm fields')
    (hnames : (Keyed.keys fields).Nodup) : Reordered (.record fields) (.record fields') := by
  suffices hbefore : ∀ before,
      Reordered (.record (before ++ fields)) (.record (before ++ fields')) from hbefore []
  induction h with
  | nil => exact fun before => .refl _
  | cons field _ ih =>
    intro before
    have hrest := ih hnames.of_cons (before ++ [field])
    rwa [List.append_assoc, List.append_assoc] at hrest
  | swap a b rest =>
    refine fun before => .swap ?_ before rest
    exact fun heq => (List.nodup_cons.1 hnames).1 (heq ▸ List.mem_cons_self)
  | trans hperm _ ih ih' =>
    exact fun before => (ih hnames before).trans
      (ih' ((hperm.map Prod.fst).nodup_iff.1 hnames) before)

end Formulary.Document
