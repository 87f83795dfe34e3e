import Formulary.Expr.Parser
import Mathlib.Data.List.TakeWhile

/-! Taking a text apart.

There is one way to take a text apart so that no plain text opens a fragment that is closed,
and no fragment goes on behind a closing brace (`existsUnique_pieces`): it is found by `cut`. A
text without such braces stays whole and stands for itself (`parse_whole`). -/
namespace Formulary

namespace Pieces

/-- No plain text before a fragment has an opening brace, no fragment has a closing one, and
no opening brace behind the fragments has a closing one after it. -/
structure Proper (p : Pieces) : Prop where
  plain : ∀ f ∈ p.fragments, '{' ∉ f.1
  fragment : ∀ f ∈ p.fragments, '}' ∉ f.2
  tail : ∀ before behind, p.tail = before ++ '{' :: behind → '}' ∉ behind

variable {cs plain fragment rest : List Char}

theorem takeWhile_append_stop {c : Char} (h : c ∉ cs) (rest : List Char) :
    (cs ++ c :: rest).takeWhile (· ≠ c) = cs := by
  have hcs : ∀ x ∈ cs, (fun x => decide (x ≠ c)) x = true := by
    intro x hx
    exact decide_eq_true fun heq => h (heq ▸ hx)
  rw [List.takeWhile_append_of_pos hcs, List.takeWhile_cons_of_neg (by simp), List.append_nil]

theorem dropWhile_append_stop {c : Char} (h : c ∉ cs) (rest : List Char) :
    (cs ++ c :: rest).dropWhile (· ≠ c) = c :: rest := by
  have hcs : ∀ x ∈ cs, (fun x => decide (x ≠ c)) x = true := by
    intro x hx
    exact decide_eq_true fun heq => h (heq ▸ hx)
  rw [List.dropWhile_append_of_pos hcs, List.dropWhile_cons_of_neg (by simp)]

theorem dropWhile_eq_nil {c : Char} (h : c ∉ cs) : cs.dropWhile (· ≠ c) = [] := by
  rw [List.dropWhile_eq_nil_iff]
  intro x hx
  exact decide_eq_true fun heq => h (heq ▸ hx)

/-- What is left of a text from the first brace of a kind on. -/
theorem exists_append_of_dropWhile {c x : Char} (h : cs.dropWhile (· ≠ c) = x :: rest) :
    x = c ∧ c ∉ cs.takeWhile (· ≠ c) ∧ cs = cs.takeWhile (· ≠ c) ++ c :: rest := by
  have hx : x = c := by
    have := List.head?_dropWhile_not (· ≠ c) cs
    rw [h] at this
    simpa using this
  subst hx
  refine ⟨rfl, fun hmem => ?_, ?_⟩
  · have := List.mem_takeWhile_imp hmem
    simp at this
  · rw [← h, List.takeWhile_append_dropWhile]

/-! ### What `cut` finds -/

/-- A fragment at the head of a text is cut off. -/
theorem cut_append (hplain : '{' ∉ plain) (hfragment : '}' ∉ fragment) (rest : List Char) :
    cut (plain ++ '{' :: (fragment ++ '}' :: rest)) =
      ⟨(plain, fragment) :: (cut rest).fragments, (cut rest).tail⟩ := by
  have hopened := dropWhile_append_stop hplain (fragment ++ '}' :: rest)
  have hclosed := dropWhile_append_stop hfragment rest
  rw [cut]
  split
  · next heq => rw [hopened] at heq; cases heq
  · next opened heq =>
    obtain ⟨-, rfl⟩ := List.cons.inj (hopened.symm.trans heq)
    split
    · next heq => rw [hclosed] at heq; cases heq
    · next heq =>
      obtain ⟨-, rfl⟩ := List.cons.inj (hclosed.symm.trans heq)
      rw [takeWhile_append_stop hplain, takeWhile_append_stop hfragment]

/-- A text where no opening brace has a closing one after it stays whole. -/
theorem cut_whole (h : ∀ before behind, cs = before ++ '{' :: behind → '}' ∉ behind) :
    cut cs = ⟨[], cs⟩ := by
  rw [cut]
  split
  · rfl
  · next opened heq =>
    obtain ⟨-, -, hcs⟩ := exists_append_of_dropWhile heq
    split
    · rfl
    · next heq' =>
      rw [dropWhile_eq_nil (h _ _ hcs)] at heq'
      cases heq'

theorem proper_cut (cs : List Char) : (cut cs).Proper := by
  fun_induction cut cs with
  | case1 cs h =>
    refine ⟨List.forall_mem_nil _, List.forall_mem_nil _, fun before behind heq => ?_⟩
    have hcs : cs = before ++ '{' :: behind := heq
    have hmem : '{' ∈ cs := hcs ▸ List.mem_append_right before List.mem_cons_self
    have := List.dropWhile_eq_nil_iff.1 h _ hmem
    simp at this
  | case2 cs brace opened h h' =>
    refine ⟨List.forall_mem_nil _, List.forall_mem_nil _, fun before behind heq hmem => ?_⟩
    obtain ⟨-, hplain, hcs⟩ := exists_append_of_dropWhile h
    -- What is behind any opening brace is behind the first one.
    have hopened : '}' ∈ opened := by
      have hdrop : brace :: opened = (before ++ '{' :: behind).dropWhile (· ≠ '{') := by
        rw [← h]
        exact congrArg _ heq
      by_cases hbefore : '{' ∈ before
      · obtain ⟨a, b, rfl, ha⟩ := List.eq_append_cons_of_mem hbefore
        rw [List.append_assoc, List.cons_append, dropWhile_append_stop ha] at hdrop
        rw [(List.cons.inj hdrop).2]
        exact List.mem_append_right b (List.mem_cons_of_mem _ hmem)
      · rw [dropWhile_append_stop hbefore] at hdrop
        rw [(List.cons.inj hdrop).2]
        exact hmem
    have := List.dropWhile_eq_nil_iff.1 h' _ hopened
    simp at this
  | case3 cs brace opened h brace' rest h' following ih =>
    obtain ⟨-, hplain, -⟩ := exists_append_of_dropWhile h
    obtain ⟨-, hfragment, -⟩ := exists_append_of_dropWhile h'
    exact ⟨List.forall_mem_cons.2 ⟨hplain, ih.plain⟩,
      List.forall_mem_cons.2 ⟨hfragment, ih.fragment⟩, ih.tail⟩

/-- Pieces as they should be are found again in their text. -/
theorem Proper.cut_join {p : Pieces} (h : p.Proper) : cut p.join = p := by
  obtain ⟨fragments, tail⟩ := p
  induction fragments with
  | nil => exact cut_whole h.tail
  | cons f fragments ih =>
    obtain ⟨hplain, hplains⟩ := List.forall_mem_cons.1 h.plain
    obtain ⟨hfragment, hfragments⟩ := List.forall_mem_cons.1 h.fragment
    have hrest := ih ⟨hplains, hfragments, h.tail⟩
    have hjoin : (⟨f :: fragments, tail⟩ : Pieces).join =
        f.1 ++ '{' :: (f.2 ++ '}' :: (⟨fragments, tail⟩ : Pieces).join) := by
      simp [join]
    rw [hjoin, cut_append hplain hfragment, hrest]

/-- A text has one decomposition. -/
theorem existsUnique_pieces (cs : List Char) : ∃! p : Pieces, p.join = cs ∧ p.Proper := by
  refine ⟨cut cs, ⟨Pieces.cut_join cs, proper_cut cs⟩, fun p hp => ?_⟩
  obtain ⟨rfl, hproper⟩ := hp
  exact hproper.cut_join.symm

end Pieces

/-- A text where no opening brace has a closing one after it stands for itself. -/
theorem parse_whole {s : String}
    (h : ∀ before behind, s.toList = before ++ '{' :: behind → '}' ∉ behind) :
    Template.parse s = .ok (.plain s) := by
  rw [Template.parse, Template.ofString, Pieces.cut_whole h]
  simp [Template.compileFragments, Template.plain, pure, Except.pure, bind, Except.bind]

end Formulary
