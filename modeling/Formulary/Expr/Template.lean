import Formulary.Expr
import Formulary.Expr.Error

/-! Text literals with `{…}` fragments.

`cut` takes a text apart: at each opening brace that has a closing one somewhere
after it, the characters up to the first closing brace are a fragment, and nothing
between the two braces opens another. An opening brace without a partner is plain
text, and so is all that follows it. `cut_join` puts the pieces together again. -/
namespace Formulary

/-- A text taken apart: each fragment with the plain text before it, and the plain text
after the last. -/
structure Pieces where
  fragments : List (List Char × List Char)
  tail : List Char
  deriving DecidableEq, Repr

namespace Pieces

def cut (cs : List Char) : Pieces :=
  match _h : cs.dropWhile (· ≠ '{') with
  | [] => ⟨[], cs⟩
  | _ :: opened =>
    match _h' : opened.dropWhile (· ≠ '}') with
    | [] => ⟨[], cs⟩
    | _ :: rest =>
      let following := cut rest
      ⟨(cs.takeWhile (· ≠ '{'), opened.takeWhile (· ≠ '}')) :: following.fragments,
        following.tail⟩
termination_by cs.length
decreasing_by
  have h₁ := (List.dropWhile_sublist (p := (· ≠ '{')) (l := cs)).length_le
  have h₂ := (List.dropWhile_sublist (p := (· ≠ '}')) (l := opened)).length_le
  simp_all
  omega

/-- The text that the pieces come from. -/
def join (p : Pieces) : List Char :=
  (p.fragments.map fun (plain, fragment) => plain ++ '{' :: fragment ++ ['}']).flatten ++ p.tail

/-- Nothing is lost by taking a text apart. -/
theorem cut_join (cs : List Char) : (cut cs).join = cs := by
  fun_induction cut cs with
  | case1 => simp [join]
  | case2 => simp [join]
  | case3 cs brace opened h brace' rest h' following ih =>
    have h₁ := List.takeWhile_append_dropWhile (p := (· ≠ '{')) (l := cs)
    have h₂ := List.takeWhile_append_dropWhile (p := (· ≠ '}')) (l := opened)
    rw [h] at h₁
    rw [h'] at h₂
    have hb : brace = '{' := by
      have := List.head?_dropWhile_not (· ≠ '{') cs
      rw [h] at this
      simpa using this
    have hb' : brace' = '}' := by
      have := List.head?_dropWhile_not (· ≠ '}') opened
      rw [h'] at this
      simpa using this
    subst hb hb'
    simp only [join, List.map_cons, List.flatten_cons] at ih ⊢
    conv => rhs; rw [← h₁, ← h₂, ← ih]
    simp [following]

end Pieces

namespace Template

/-- Compile fragments one after the other. The first argument is the length of the plain
text before them. -/
def compileFragments (compile : String → Except ParseError Expr) :
    Nat → List (List Char × List Char) → Except ParseError (List (Nat × Expr))
  | _, [] => .ok []
  | start, (plain, fragment) :: rest => do
    let position := start + Text.byteLength plain
    let fragment := String.ofList fragment
    let expr ← (compile fragment).mapError (.interpolation fragment)
    let inserts ← compileFragments compile position rest
    pure ((position, expr) :: inserts)

/-- The template that a text stands for, its fragments read by `compile`. -/
def ofString (compile : String → Except ParseError Expr) (content : String) :
    Except ParseError Template := do
  let pieces := Pieces.cut content.toList
  let inserts ← compileFragments compile 0 pieces.fragments
  pure ⟨String.ofList ((pieces.fragments.map Prod.fst).flatten ++ pieces.tail), inserts.reverse⟩

/-- A text taken as it stands. -/
def plain (content : String) : Template :=
  ⟨content, []⟩

end Template

end Formulary
