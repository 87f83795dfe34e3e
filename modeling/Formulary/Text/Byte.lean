/-! Positions in a text, counted in bytes of its UTF-8 form. -/
namespace Formulary.Text

/-- The bytes that a run of characters occupies. -/
def byteLength : List Char → Nat
  | [] => 0
  | c :: cs => c.utf8Size + byteLength cs

@[simp] theorem byteLength_append (a b : List Char) :
    byteLength (a ++ b) = byteLength a + byteLength b := by
  induction a with
  | nil => simp [byteLength]
  | cons c cs ih => simp [byteLength, ih, Nat.add_assoc]

/-- The characters before byte `offset`, and those from there on. A position inside
a character counts as the position after it. -/
def splitAtByte : Nat → List Char → List Char × List Char
  | 0, cs => ([], cs)
  | _, [] => ([], [])
  | offset, c :: cs =>
    let (before, after) := splitAtByte (offset - c.utf8Size) cs
    (c :: before, after)

/-- Nothing is lost by a cut. -/
theorem splitAtByte_append (offset : Nat) (cs : List Char) :
    (splitAtByte offset cs).1 ++ (splitAtByte offset cs).2 = cs := by
  fun_induction splitAtByte offset cs with
  | case1 => rfl
  | case2 => rfl
  | case3 offset c cs _ before after h ih => simpa [h] using ih

/-- A cut after a whole run of characters finds that run. -/
theorem splitAtByte_byteLength (a b : List Char) :
    splitAtByte (byteLength a) (a ++ b) = (a, b) := by
  induction a with
  | nil => cases b <;> rfl
  | cons c cs ih =>
    have hc : c.utf8Size ≠ 0 := Nat.ne_of_gt c.utf8Size_pos
    obtain ⟨n, hn⟩ : ∃ n, c.utf8Size + byteLength cs = n + 1 := ⟨_, (Nat.succ_pred (by omega)).symm⟩
    have hsub : n + 1 - c.utf8Size = byteLength cs := by omega
    simp [byteLength, hn, splitAtByte, hsub, ih]

/-- The text with `piece` put in at byte `offset`. -/
def insertAt (offset : Nat) (piece text : String) : String :=
  let (before, after) := splitAtByte offset text.toList
  String.ofList before ++ piece ++ String.ofList after

end Formulary.Text
