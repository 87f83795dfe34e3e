import Formulary.Proofs.Double
import Formulary.Proofs.Except
import Formulary.Value.Document

/-! Documents through values.

A document that becomes a value and then a document again comes out in a normal form: only
integers and texts are left outside records, and every number is brought to the nearest
integer of 64 bits after its fraction is cut off (`toDocument_ofDocument`). A value that
becomes a document and then a value again is the same but for the identities of its objects
(`anonymous_ofDocument`). -/
namespace Formulary

namespace Document

/-! ### Normal forms -/

/-- The integer that a number becomes. -/
def ofNumber (q : ℚ) : Document :=
  .integer (max Word.least (min Word.greatest (wholePart q)))

mutual

/-- A document with integers in the place of all scalars but texts. Records stay as they are. -/
def normal : Document → Document
  | null => ofNumber 0
  | bool b => ofNumber (if b then 1 else 0)
  | integer n => ofNumber n
  | double bits => ofNumber (doubleValue bits)
  | text s => .text s
  | list items => .list (normalItems items)
  | record fields => .record fields

def normalItems : List Document → List Document
  | [] => []
  | d :: rest => d.normal :: normalItems rest

end

/-- The scalars outside records are texts and integers of 64 bits. -/
inductive IsNormal : Document → Prop where
  | integer {n : Int} (h : Word.Fits n) : IsNormal (.integer n)
  | text (s : String) : IsNormal (.text s)
  | list {items : List Document} (h : ∀ d ∈ items, IsNormal d) : IsNormal (.list items)
  | record (fields : List (String × Document)) : IsNormal (.record fields)

theorem ofNumber_intCast (n : Int) :
    ofNumber n = .integer (max Word.least (min Word.greatest n)) := by
  rw [ofNumber, wholePart_intCast]

theorem ofNumber_of_fits {n : Int} (h : Word.Fits n) : ofNumber n = .integer n := by
  rw [ofNumber_intCast, min_eq_right h.2, max_eq_right h.1]

theorem isNormal_ofNumber (q : ℚ) : (ofNumber q).IsNormal :=
  .integer ⟨le_max_left _ _, max_le (by decide) (min_le_left _ _)⟩

theorem integer_toInt_clamp (n : Int) : integer (Word.clamp n).toInt = ofNumber n := by
  rw [Word.toInt_clamp, ofNumber_intCast]

mutual

theorem isNormal_normal (d : Document) : d.normal.IsNormal := by
  cases d with
  | null | bool b | integer n | double bits => exact isNormal_ofNumber _
  | text s => exact .text s
  | list items => exact .list (isNormal_normalItems items)
  | record fields => exact .record fields

theorem isNormal_normalItems (items : List Document) : ∀ d ∈ normalItems items, d.IsNormal := by
  cases items with
  | nil => exact List.forall_mem_nil _
  | cons d items => exact List.forall_mem_cons.2 ⟨isNormal_normal d, isNormal_normalItems items⟩

end

mutual

theorem normal_of_isNormal (d : Document) (h : d.IsNormal) : d.normal = d := by
  cases h with
  | integer hn => exact ofNumber_of_fits hn
  | text s => rfl
  | record fields => rfl
  | @list items hitems => exact congrArg list (normalItems_of_isNormal items hitems)

theorem normalItems_of_isNormal (items : List Document) (h : ∀ d ∈ items, d.IsNormal) :
    normalItems items = items := by
  cases items with
  | nil => rfl
  | cons d items =>
    obtain ⟨hd, hitems⟩ := List.forall_mem_cons.1 h
    rw [normalItems, normal_of_isNormal d hd, normalItems_of_isNormal items hitems]

end

/-- What becomes of a document that becomes a value, the first new identity being `free`. -/
def exchanged (free : Nat) (d : Document) : Except EvalError Document :=
  (Value.ofDocument free d).1.toDocument

end Document

namespace Value

open Document (ofNumber exchanged)

/-! ### From documents and back -/

mutual

theorem toDocument_ofDocument (free : Nat) (d : Document) :
    d.exchanged free = .ok d.normal := by
  cases d with
  | null => exact congrArg Except.ok (Document.ofNumber_of_fits (n := 0) (by decide)).symm
  | bool b =>
    cases b with
    | false => exact congrArg Except.ok (Document.ofNumber_of_fits (n := 0) (by decide)).symm
    | true => exact congrArg Except.ok (Document.ofNumber_of_fits (n := 1) (by decide)).symm
  | integer n => exact congrArg Except.ok (Document.integer_toInt_clamp n)
  | double bits =>
    refine congrArg Except.ok ?_
    rw [Document.integer_toInt_clamp, Document.normal, ofNumber, wholePart_intCast,
      truncateDouble_eq, ofNumber]
  | text s => rfl
  | record fields => rfl
  | list items =>
    change (do return Document.list (← toDocuments (ofDocuments free items).1)) = _
    rw [toDocuments_ofDocuments free items]
    rfl

theorem toDocuments_ofDocuments (free : Nat) (items : List Document) :
    toDocuments (ofDocuments free items).1 = .ok (Document.normalItems items) := by
  cases items with
  | nil => rfl
  | cons d items =>
    change (do return (← d.exchanged free) ::
      (← toDocuments (ofDocuments (ofDocument free d).2 items).1)) = _
    rw [toDocument_ofDocument free d, toDocuments_ofDocuments _ items]
    rfl

end

/-! ### From values and back -/

/-- No objects but records. -/
inductive Recorded : Value → Prop where
  | integer (n : Int64) : Recorded (.integer n)
  | text (s : String) : Recorded (.text s)
  | list {items : List Value} (h : ∀ v ∈ items, Recorded v) : Recorded (.list items)
  | record (identity : Nat) (fields : List (String × Document)) :
      Recorded (.object identity (.record fields))

mutual

/-- A value with the identities of its objects forgotten. -/
def anonymous : Value → Value
  | integer n => .integer n
  | text s => .text s
  | list items => .list (anonymousItems items)
  | object _ attributes => .object 0 attributes

def anonymousItems : List Value → List Value
  | [] => []
  | v :: rest => v.anonymous :: anonymousItems rest

end

mutual

theorem toDocument_of_recorded (v : Value) (h : v.Recorded) : ∃ d, v.toDocument = .ok d := by
  cases h with
  | integer n => exact ⟨_, rfl⟩
  | text s => exact ⟨_, rfl⟩
  | record identity fields => exact ⟨_, rfl⟩
  | @list items hitems =>
    obtain ⟨ds, hds⟩ := toDocuments_of_recorded items hitems
    exact ⟨.list ds, bind_eq_ok_iff.2 ⟨ds, hds, rfl⟩⟩

theorem toDocuments_of_recorded (items : List Value) (h : ∀ v ∈ items, v.Recorded) :
    ∃ ds, toDocuments items = .ok ds := by
  cases items with
  | nil => exact ⟨_, rfl⟩
  | cons v items =>
    obtain ⟨hv, hitems⟩ := List.forall_mem_cons.1 h
    obtain ⟨d, hd⟩ := toDocument_of_recorded v hv
    obtain ⟨ds, hds⟩ := toDocuments_of_recorded items hitems
    exact ⟨d :: ds, bind_eq_ok_iff.2 ⟨d, hd, bind_eq_ok_iff.2 ⟨ds, hds, rfl⟩⟩⟩

end

theorem toDocument_list_eq_ok {items : List Value} {d : Document}
    (h : (list items).toDocument = .ok d) : ∃ ds, toDocuments items = .ok ds ∧ d = .list ds := by
  obtain ⟨ds, hds, hd⟩ := bind_eq_ok_iff.1 h
  exact ⟨ds, hds, (Except.ok.inj hd).symm⟩

theorem toDocuments_cons_eq_ok {v : Value} {items : List Value} {ds : List Document}
    (h : toDocuments (v :: items) = .ok ds) :
    ∃ d ds', v.toDocument = .ok d ∧ toDocuments items = .ok ds' ∧ ds = d :: ds' := by
  obtain ⟨d, hd, h⟩ := bind_eq_ok_iff.1 h
  obtain ⟨ds', hds', h⟩ := bind_eq_ok_iff.1 h
  exact ⟨d, ds', hd, hds', (Except.ok.inj h).symm⟩

theorem toDocument_object_eq_ok {identity : Nat} {attributes : Object} {d : Document}
    (h : (object identity attributes).toDocument = .ok d) :
    ∃ fields, attributes = .record fields ∧ d = .record fields := by
  cases attributes with
  | record fields => exact ⟨fields, rfl, (Except.ok.inj h).symm⟩
  | nothing | tile | layer | host => exact nomatch h

mutual

theorem recorded_of_toDocument (v : Value) {d : Document} (h : v.toDocument = .ok d) :
    v.Recorded := by
  cases v with
  | integer n => exact .integer n
  | text s => exact .text s
  | list items =>
    obtain ⟨ds, hds, -⟩ := toDocument_list_eq_ok h
    exact .list (recorded_of_toDocuments items hds)
  | object identity attributes =>
    obtain ⟨fields, rfl, -⟩ := toDocument_object_eq_ok h
    exact .record identity fields

theorem recorded_of_toDocuments (items : List Value) {ds : List Document}
    (h : toDocuments items = .ok ds) : ∀ v ∈ items, v.Recorded := by
  cases items with
  | nil => exact List.forall_mem_nil _
  | cons v items =>
    obtain ⟨d, ds', hd, hds', -⟩ := toDocuments_cons_eq_ok h
    exact List.forall_mem_cons.2 ⟨recorded_of_toDocument v hd, recorded_of_toDocuments items hds'⟩

end

mutual

theorem anonymous_ofDocument (free : Nat) (v : Value) {d : Document} (h : v.toDocument = .ok d) :
    (ofDocument free d).1.anonymous = v.anonymous := by
  cases v with
  | integer n =>
    obtain rfl := Except.ok.inj h
    exact congrArg integer (Word.clamp_toInt n)
  | text s =>
    obtain rfl := Except.ok.inj h
    rfl
  | list items =>
    obtain ⟨ds, hds, rfl⟩ := toDocument_list_eq_ok h
    exact congrArg list (anonymousItems_ofDocuments free items hds)
  | object identity attributes =>
    obtain ⟨fields, rfl, rfl⟩ := toDocument_object_eq_ok h
    rfl

theorem anonymousItems_ofDocuments (free : Nat) (items : List Value) {ds : List Document}
    (h : toDocuments items = .ok ds) :
    anonymousItems (ofDocuments free ds).1 = anonymousItems items := by
  cases items with
  | nil =>
    obtain rfl := Except.ok.inj h
    rfl
  | cons v items =>
    obtain ⟨d, ds', hd, hds', rfl⟩ := toDocuments_cons_eq_ok h
    exact congrArg₂ List.cons (anonymous_ofDocument free v hd)
      (anonymousItems_ofDocuments _ items hds')

end

/-- **Documents and values.** A document comes back from a value in its normal form; so it
comes back as it was if it is normal, and a second time nothing changes. A value has a
document just if all its objects are records, and then it comes back from it as it was, its
objects with new identities. -/
theorem exchange_document_value :
    (∀ (d : Document) (free : Nat),
      d.exchanged free = .ok d.normal ∧
      (d.IsNormal → d.exchanged free = .ok d) ∧
      ∀ free', (d.exchanged free >>= Document.exchanged free') = d.exchanged free) ∧
    ∀ v : Value,
      ((∃ d, v.toDocument = .ok d) ↔ v.Recorded) ∧
      ∀ (d : Document) (free : Nat),
        v.toDocument = .ok d → (ofDocument free d).1.anonymous = v.anonymous := by
  refine ⟨fun d free => ⟨toDocument_ofDocument free d, fun hd => ?_, fun free' => ?_⟩,
    fun v => ⟨⟨fun ⟨_, h⟩ => recorded_of_toDocument v h, toDocument_of_recorded v⟩,
      fun _ free => anonymous_ofDocument free v⟩⟩
  · rw [toDocument_ofDocument, Document.normal_of_isNormal d hd]
  · have hnormal := Document.normal_of_isNormal _ d.isNormal_normal
    calc (d.exchanged free >>= exchanged free') = d.normal.exchanged free' := by
          rw [toDocument_ofDocument]
          rfl
      _ = d.exchanged free := by
          rw [toDocument_ofDocument, toDocument_ofDocument, hnormal]

/-- `[null, -2.5, 18446744073709551615, [true, {"k": null}]]` and what is left of it. -/
theorem exchange_mixed :
    let record := Document.record [("k", .null)]
    let mixed := Document.list [.null, .double 0xC004000000000000, .integer 18446744073709551615,
      .list [.bool true, record]]
    let left := Document.list [.integer 0, .integer (-2), .integer 9223372036854775807,
      .list [.integer 1, record]]
    let v := Value.list [.text "a", .object 5 (.record [("k", .null)])]
    mixed.exchanged 7 = .ok left ∧
      (left.IsNormal ∧ left.exchanged 7 = .ok left) ∧
      (v.toDocument = .ok (.list [.text "a", record]) ∧
        (ofDocument 7 (.list [.text "a", record])).1.anonymous = v.anonymous) := by
  intro record mixed left v
  have hbits : (0xC004000000000000 : UInt64).toNat = 0xC004000000000000 := rfl
  have hdouble : doubleValue 0xC004000000000000 = -5 / 2 := by
    norm_num [doubleValue, doubleMagnitude, hbits]
  have hnormal : mixed.normal = left := by
    norm_num [mixed, left, record, Document.normal, Document.normalItems, hdouble, ofNumber,
      wholePart, Word.least, Word.greatest]
  have hleft : left.IsNormal := hnormal ▸ mixed.isNormal_normal
  have hv : v.toDocument = .ok (.list [.text "a", record]) := rfl
  exact ⟨hnormal ▸ (exchange_document_value.1 mixed 7).1,
    ⟨hleft, (exchange_document_value.1 left 7).2.1 hleft⟩,
    hv, (exchange_document_value.2 v).2 _ 7 hv⟩

end Value

end Formulary
