import Formulary.Formula
import Formulary.Proofs.Contract
import Formulary.Proofs.Insertion
import Mathlib

/-! What evaluation can rely on.

Well-formed trees make only calls with accepted counts of arguments. Two contracts follow an
error of a wrong count to where it comes from: if one comes out at all, the host gave it as
its last answer (`blamingHost`), and without objects of the host none comes out
(`hostless`). `parse_guarantees` puts this beside the form of the tree and its
insertions. -/
namespace Formulary

/-! ### Trees -/

theorem Expr.WellFormed.within {e : Expr} (h : e.WellFormed) : e.Within .accepted := by
  induction h with
  | integer => exact .integer _
  | text _ _ _ ih => exact .text ih
  | list _ ih => exact .list ih
  | name => exact .name trivial
  | unary _ ih => exact .unary ih
  | binary _ _ ihl ihr => exact .binary trivial ihl ihr
  | member _ _ ihs ih => exact .member ihs ih
  | call harity _ ih => exact .call harity ih
  | clauses _ _ _ _ _ ihbody ih => exact .clauses ihbody ih

/-- By these means no call has a wrong count of arguments. -/
def Means.ordinary (value : Value → Prop) (object : Object → Prop) : Means :=
  ⟨.accepted, value, object, fun e => e.isArgumentCount = false⟩

theorem Means.closed_ordinary : (Means.ordinary (fun _ => True) fun _ => True).Closed where
  integer _ := trivial
  text _ := trivial
  list _ := ⟨fun _ _ _ => trivial, fun _ => trivial⟩
  reference _ _ := Iff.rfl
  tile _ _ := trivial
  record _ _ _ := trivial
  layer _ _ _ := ⟨fun _ _ => trivial, trivial⟩
  host _ _ _ := trivial
  fail _ he := he
  count _ _ hf hn := Bool.noConfusion (hn.symm.trans hf)

/-! ### The host is to blame -/

/-- A wrong count of arguments is what the host answered last. -/
def Contract.blamingHost (answer : Array Lookup → Lookup → Except EvalError Value) : Contract where
  world w := w.answer = answer
  slot _ := True
  error e w := e.isArgumentCount = true →
    ∃ log lookup, w.log = log.push lookup ∧ answer log lookup = .error e

theorem Contract.closed_blamingHost (answer : Array Lookup → Lookup → Except EvalError Value) :
    (Contract.blamingHost answer).Closed (.ordinary (fun _ => True) fun _ => True) where
  host handle key w _ hw := by
    have hw : w.answer = answer := hw
    cases h : w.answer w.log ⟨handle, .query, key⟩ with
    | error e => exact fun _ => ⟨w.log, _, rfl, hw ▸ h⟩
    | ok v => exact ⟨trivial, hw⟩
  draw _ _ _ hw := hw
  name _ _ _ _ hw := hw
  openCache _ hw := ⟨trivial, hw⟩
  remember _ _ _ _ _ hw _ := hw
  remembered _ _ _ _ _ _ := trivial
  fail _ e _ he := fun h => nomatch he.symm.trans h

theorem Expr.WellFormed.host_answered_of_argumentCount {e : Expr} (h : e.WellFormed) {o : Object}
    {w w' : World} {f : Builtin} {n : Nat}
    (hrun : (e.eval (.object o)).run.run w = (.error (.argumentCount f n), w')) :
    ∃ log lookup, w'.log = log.push lookup ∧
      w.answer log lookup = .error (.argumentCount f n) := by
  have hA := Means.closed_ordinary
  have hc := Contract.closed_blamingHost w.answer
  have hkeeps := h.within.keeps hA hc (hc.answers_object hA (o := o) trivial) w rfl
  rw [hrun] at hkeeps
  exact hkeeps rfl

/-! ### Without a host -/

mutual

/-- No object of the host is in the value, nor among what its objects have. -/
inductive Value.Hostless : Value → Prop where
  | integer (n : Int64) : Value.Hostless (.integer n)
  | text (s : String) : Value.Hostless (.text s)
  | list {items : List Value} (h : ∀ v ∈ items, Value.Hostless v) : Value.Hostless (.list items)
  | object {identity : Nat} {o : Object} (h : Object.Hostless o) :
      Value.Hostless (.object identity o)

inductive Object.Hostless : Object → Prop where
  | nothing : Object.Hostless .nothing
  | tile (l : Location) : Object.Hostless (.tile l)
  | record (fields : List (String × Document)) : Object.Hostless (.record fields)
  | layer {entries : List (String × Value)} {fallback : Object}
      (hentries : ∀ entry ∈ entries, Value.Hostless entry.2) (h : Object.Hostless fallback) :
      Object.Hostless (.layer entries fallback)

end

theorem Means.closed_hostless : (Means.ordinary Value.Hostless Object.Hostless).Closed where
  integer := Value.Hostless.integer
  text := Value.Hostless.text
  list _ := ⟨fun (.list h) => h, Value.Hostless.list⟩
  reference _ _ := ⟨fun (.object h) => h, Value.Hostless.object⟩
  tile l _ := Object.Hostless.tile l
  record _ fields _ := Object.Hostless.record fields
  layer _ _ := fun (.layer hentries h) => ⟨hentries, h⟩
  host _ _ h := nomatch h
  fail _ he := he
  count _ _ hf hn := Bool.noConfusion (hn.symm.trans hf)

/-- Nothing of the host is in the caches from `base` on, the only ones that are read. -/
def Contract.hostless (base : Nat) : Contract where
  world := World.Remembers Value.Hostless base
  slot k := base ≤ k
  error e _ := e.isArgumentCount = false

theorem Contract.closed_hostless (base : Nat) :
    (Contract.hostless base).Closed (.ordinary Value.Hostless Object.Hostless) where
  host _ _ _ h := nomatch h
  draw _ _ _ hw := hw
  name _ _ _ _ hw := hw
  openCache _ hw := ⟨hw.1, hw.push⟩
  remember _ slot key _ _ hw hv := hw.remember slot key hv
  remembered _ slot entry hslot hw hentry := hw.2 slot hslot entry hentry
  fail _ _ _ he := he

theorem Expr.WellFormed.not_hostless_of_argumentCount {e : Expr} (h : e.WellFormed) {o : Object}
    {w w' : World} {f : Builtin} {n : Nat}
    (hrun : (e.eval (.object o)).run.run w = (.error (.argumentCount f n), w')) :
    ¬ o.Hostless := by
  intro ho
  have hA := Means.closed_hostless
  have hc := Contract.closed_hostless w.caches.size
  have hkeeps := h.within.keeps hA hc (hc.answers_object hA ho) w (.refl w)
  rw [hrun] at hkeeps
  cases hkeeps

/-! ### Sources -/

/-- **What the parser returns is well formed.** So no value goes into a text off a character
boundary, whatever went in before it; and in any environment a wrong count of arguments is
reported only if an object of the host reports it. -/
theorem parse_guarantees {source : String} {e : Expr} (h : parse source = .ok e) :
    e.WellFormed ∧ (∀ refusal, e.evalChecked refusal = e.eval) ∧
      ∀ (env : Environment) (w w' : World) (f : Builtin) (n : Nat),
        (e.eval (.object env.toObject)).run.run w = (.error (.argumentCount f n), w') →
          ¬ env.toObject.Hostless ∧ ∃ log lookup, w'.log = log.push lookup ∧
            w.answer log lookup = .error (.argumentCount f n) := by
  have hwf := wellFormed_of_parse h
  refine ⟨hwf, fun refusal => Expr.evalChecked_eq hwf, fun env w w' f n hrun => ⟨?_, ?_⟩⟩
  · exact hwf.not_hostless_of_argumentCount hrun
  · exact hwf.host_answered_of_argumentCount hrun

/-- A text with two insertions, and a host that complains about a count of arguments. -/
theorem guarantees_of_text :
    ∃ e w', parse "'é{abs(x)} {y}'" = .ok e ∧ e.WellFormed ∧
      (∀ refusal, e.evalChecked refusal = e.eval) ∧
      (e.eval (.object (Environment.above (.host 0)).toObject)).run.run
        (World.fresh (.ofWords fun _ => 0) fun _ _ => .error (.argumentCount .abs 2)) =
          (.error (.argumentCount .abs 2), w') ∧
      ¬ (Environment.above (.host 0)).toObject.Hostless ∧
      ∃ (log : Array Lookup) (lookup : Lookup), w'.log = log.push lookup := by
  have h : parse "'é{abs(x)} {y}'" =
      .ok (.text "é " [(3, .name "y"), (2, .call .abs [.name "x"])]) := by
    cbv
  obtain ⟨hwf, hinsertions, hcounts⟩ := parse_guarantees h
  obtain ⟨hhost, log, lookup, hlog, -⟩ := hcounts (Environment.above (.host 0))
    (World.fresh (.ofWords fun _ => 0) fun _ _ => .error (.argumentCount .abs 2)) _ .abs 2 rfl
  exact ⟨_, _, h, hwf, hinsertions, rfl, hhost, log, lookup, hlog⟩

end Formulary
