import Formulary.Proofs.Bond

/-! Steady expressions.

An expression without dice and tiles that is evaluated in a plain environment, with numbers,
texts and lists only, cannot tell one world from another and has nothing to change there: it
always comes to the same outcome, and leaves behind no more than caches of its own
(`Within.eval_steady`). -/
namespace Formulary

/-! ### Plain environments -/

/-- A number, a text or a list of plain values. -/
inductive Value.Plain : Value → Prop where
  | integer (n : Int64) : Value.Plain (.integer n)
  | text (s : String) : Value.Plain (.text s)
  | list {items : List Value} (h : ∀ v ∈ items, v.Plain) : Value.Plain (.list items)

/-- Layers of plain values over nothing. -/
inductive Object.Plain : Object → Prop where
  | nothing : Object.Plain .nothing
  | layer {entries : List (String × Value)} {fallback : Object}
      (hentries : ∀ entry ∈ entries, entry.2.Plain) (h : fallback.Plain) :
      Object.Plain (.layer entries fallback)

/-- A plain object answers at once. -/
theorem Object.Plain.exists_query {o : Object} (h : o.Plain) (n : String) :
    ∃ v, v.Plain ∧ o.query n = pure v := by
  induction h with
  | nothing => exact ⟨.missing, .integer 0, rfl⟩
  | @layer entries fallback hentries _ ih =>
    rw [Object.query]
    split
    · next v hv => exact ⟨v, hentries _ (mem_of_lookup hv), rfl⟩
    · exact ih

/-! ### Means without dice and tiles -/

/-- Everything but dice and tiles. -/
def Vocabulary.steady : Vocabulary :=
  ⟨fun _ => True, fun op => op ≠ .dice, fun f _ => f ≠ .loc⟩

/-- Plain values and no objects. -/
def Means.plain : Means :=
  ⟨.steady, Value.Plain, fun _ => False, fun _ => True⟩

theorem Means.closed_plain : Means.plain.Closed where
  integer := Value.Plain.integer
  text := Value.Plain.text
  list _ := ⟨fun (.list h) => h, Value.Plain.list⟩
  reference _ _ := ⟨fun h => (nomatch h), False.elim⟩
  tile _ h := h rfl
  record _ _ h := h
  layer _ _ h := h.elim
  host _ _ h := h.elim
  fail _ _ := trivial
  count _ _ _ _ := trivial

theorem Object.Plain.stepwise {o : Object} (h : o.Plain) (n : String) :
    Stepwise .plain (fun _ => o.query n) Means.plain.value := by
  obtain ⟨v, hv, hquery⟩ := h.exists_query n
  rw [hquery]
  exact .pure hv

/-! ### Nothing changes -/

/-- The world is `start` but for caches that have been opened since. -/
def Contract.untouched (start : World) : Contract where
  world w := w = { start with caches := w.caches } ∧
    (∀ k < start.caches.size, w.caches[k]? = start.caches[k]?) ∧
    w.Remembers Value.Plain start.caches.size
  slot k := start.caches.size ≤ k
  error _ w := w = { start with caches := w.caches } ∧
    ∀ k < start.caches.size, w.caches[k]? = start.caches[k]?

theorem Contract.closed_untouched (start : World) : (Contract.untouched start).Closed .plain where
  host _ _ _ h := h.elim
  draw _ _ h := absurd rfl h
  name _ _ _ h := h.elim
  openCache w hw := by
    obtain ⟨heq, hold, hplain⟩ := hw
    refine ⟨hplain.1, ?_, fun k hk => ?_, hplain.push⟩
    · rw [heq]
    · have hlt : k < w.caches.size := Nat.lt_of_lt_of_le hk hplain.1
      show (w.caches.push [])[k]? = _
      rw [Array.getElem?_push_lt hlt, ← Array.getElem?_eq_getElem hlt, hold k hk]
  remember w slot key v hslot hw hv := by
    obtain ⟨heq, hold, hplain⟩ := hw
    refine ⟨?_, fun k hk => ?_, hplain.remember slot key hv⟩
    · rw [heq]
    · show (w.caches.modify slot _)[k]? = _
      rw [Array.getElem?_modify, if_neg (Nat.ne_of_gt (Nat.lt_of_lt_of_le hk hslot)), hold k hk]
  remembered w slot entry hslot hw hentry := hw.2.2.2 slot hslot entry hentry
  fail _ _ hw _ := ⟨hw.1, hw.2.1⟩

/-! ### Nothing matters -/

/-- Any two worlds are alike. -/
def Bond.anywhere : Bond where
  alike _ _ := True
  own _ := True
  apart _ _ := False

theorem Bond.closed_anywhere : Bond.anywhere.Closed .plain where
  host _ _ _ _ h := h.elim
  draw _ _ h := absurd rfl h
  name _ _ _ h := h.elim
  openCache _ _ _ := ⟨trivial, trivial⟩
  remember _ _ _ _ _ _ _ _ := trivial
  value_of_apart _ _ h := h.elim
  grow _ _ _ _ h := h.elim

namespace Expr

variable {e : Expr} {o : Object}

/-- In a plain environment a steady expression comes to the same in all worlds. -/
theorem Within.outcome_eq (h : e.Within .steady) (ho : o.Plain) (w w' : World) :
    ((e.eval (.object o)).run.run w).1 = ((e.eval (.object o)).run.run w').1 := by
  have hbinds : Bond.anywhere.Binds .plain (fun _ _ => False) (.object o) (.object o) :=
    Bond.closed_anywhere.binds_of_stepwise Means.closed_plain _ ho.stepwise
  have hagree := (h : e.Within Means.plain.toVocabulary).together Means.closed_plain
    Bond.closed_anywhere hbinds w w' (.of_no_links trivial)
  exact (hagree.same id).1

/-- **A steady expression in a plain environment is a constant.** Its outcome is the same in
all worlds, and it changes nothing but caches of its own. -/
theorem Within.eval_steady (h : e.Within .steady) (ho : o.Plain) (w w₀ : World) :
    ∃ caches, (e.eval (.object o)).run.run w =
        (((e.eval (.object o)).run.run w₀).1, { w with caches := caches }) ∧
      ∀ k < w.caches.size, caches[k]? = w.caches[k]? := by
  have hc := Contract.closed_untouched w
  have hkeeps := (h : e.Within Means.plain.toVocabulary).keeps Means.closed_plain hc
    (hc.answers_of_stepwise Means.closed_plain ho.stepwise) w ⟨rfl, fun _ _ => rfl, .refl w⟩
  have houtcome := h.outcome_eq ho w w₀
  revert hkeeps houtcome
  rcases (e.eval (.object o)).run.run w with ⟨x | v, w'⟩
  · rintro ⟨heq, hold⟩ houtcome
    exact ⟨w'.caches, Prod.ext houtcome heq, hold⟩
  · rintro ⟨-, heq, hold, -⟩ houtcome
    exact ⟨w'.caches, Prod.ext houtcome heq, hold⟩

end Expr

end Formulary
