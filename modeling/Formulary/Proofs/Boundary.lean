import Formulary.Text.Byte

/-! Character boundaries.

A position in a text, counted in bytes, is a boundary if a run of whole characters ends
there. Nothing of a text before the place of an insertion moves, so the boundaries there
stay what they are (`IsBoundary.insertAt`). -/
namespace Formulary.Text

/-- Whole characters end at the position. -/
def IsBoundary (offset : Nat) (text : String) : Prop :=
  ∃ before after, text.toList = before ++ after ∧ byteLength before = offset

theorem IsBoundary.le_byteLength {offset : Nat} {text : String} (h : IsBoundary offset text) :
    offset ≤ byteLength text.toList := by
  obtain ⟨before, after, htext, rfl⟩ := h
  rw [htext, byteLength_append]
  exact Nat.le_add_right _ _

/-- A cut at a boundary is exact. -/
theorem isBoundary_iff {offset : Nat} {text : String} :
    IsBoundary offset text ↔ byteLength (splitAtByte offset text.toList).1 = offset := by
  constructor
  · rintro ⟨before, after, htext, rfl⟩
    rw [htext, splitAtByte_byteLength]
  · intro h
    exact ⟨_, _, (splitAtByte_append offset text.toList).symm, h⟩

instance (offset : Nat) (text : String) : Decidable (IsBoundary offset text) :=
  decidable_of_iff _ isBoundary_iff.symm

theorem byteLength_eq_zero {cs : List Char} (h : byteLength cs = 0) : cs = [] := by
  cases cs with
  | nil => rfl
  | cons c cs =>
    have := c.utf8Size_pos
    simp only [byteLength] at h
    omega

/-- Of two beginnings of a text the shorter one is a beginning of the other. -/
theorem exists_append_of_byteLength_le {a b a' b' : List Char} (h : a ++ b = a' ++ b')
    (hle : byteLength a' ≤ byteLength a) : ∃ c, a = a' ++ c := by
  rcases List.append_eq_append_iff.1 h with ⟨c, rfl, -⟩ | ⟨c, rfl, -⟩
  · rw [byteLength_append] at hle
    obtain rfl : c = [] := byteLength_eq_zero (by omega)
    exact ⟨[], by simp⟩
  · exact ⟨c, rfl⟩

/-- The part of a text between two positions, both of them boundaries. -/
def slice? (text : String) (start stop : Nat) : Option String :=
  if start ≤ stop ∧ IsBoundary start text ∧ IsBoundary stop text then
    some (String.ofList (splitAtByte start (splitAtByte stop text.toList).1).2)
  else none

theorem slice?_of_append {text : String} {before middle behind : List Char}
    (h : text.toList = before ++ (middle ++ behind)) :
    slice? text (byteLength before) (byteLength before + byteLength middle) =
      some (String.ofList middle) := by
  have hstop : text.toList = before ++ middle ++ behind := by rw [h, List.append_assoc]
  rw [slice?, ← byteLength_append,
    if_pos ⟨by simp, ⟨before, _, h, rfl⟩, ⟨before ++ middle, behind, hstop, rfl⟩⟩, hstop,
    splitAtByte_byteLength, splitAtByte_byteLength]

/-- A boundary stays one when something is put in behind it. -/
theorem IsBoundary.insertAt {offset offset' : Nat} {text : String} (h : IsBoundary offset text)
    (h' : IsBoundary offset' text) (hle : offset' ≤ offset) (piece : String) :
    IsBoundary offset' (insertAt offset piece text) := by
  obtain ⟨before, after, htext, rfl⟩ := h
  obtain ⟨before', after', htext', rfl⟩ := h'
  obtain ⟨c, rfl⟩ := exists_append_of_byteLength_le (htext.symm.trans htext') hle
  refine ⟨before', c ++ piece.toList ++ after, ?_, rfl⟩
  rw [Text.insertAt, htext, splitAtByte_byteLength]
  simp

end Formulary.Text
