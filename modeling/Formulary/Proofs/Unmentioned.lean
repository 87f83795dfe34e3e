import Formulary.Formula
import Formulary.Proofs.Substitution
import Mathlib

/-! What a formula does not mention does not matter.

Scopes are asked for the names of a formula and for nothing else, so two environments that
answer these names alike take a formula through the same steps: adding a name that is not in
it changes nothing. Nor do the random numbers matter to a formula without dice. One bond serves
for both: the worlds are the same but for their caches and their random numbers, and how the
source of one is related to that of the other is a parameter (`Bond.sources`). -/
namespace Formulary

/-- All names but one. -/
def Vocabulary.without (key : String) : Vocabulary := ⟨(· ≠ key), fun _ => True, fun _ _ => True⟩

/-- All operators but dice. -/
def Vocabulary.diceless : Vocabulary := ⟨fun _ => True, (· ≠ .dice), fun _ _ => True⟩

/-! ### Worlds with random numbers of their own -/

/-- A source of random numbers, with its state. -/
abbrev Source := Generator × Nat

def World.source (w : World) : Source := (w.generator, w.state)

/-- The worlds are the same but for their caches and their random numbers, and the sources of
these are related. -/
def Bond.sources (related : Source → Source → Prop) : Bond where
  alike w w' := related w.source w'.source ∧
    w' = { w with generator := w'.generator, state := w'.state, caches := w'.caches }
  own _ := True
  apart _ _ := False

/-- If there are dice, related sources are the same, and they stay related. -/
def Vocabulary.DrawsAlike (V : Vocabulary) (related : Source → Source → Prop) : Prop :=
  V.operator .dice → ∀ s s', related s s' → s = s' ∧ ∀ n : Nat, related (s.1, n) (s'.1, n)

variable {V : Vocabulary} {related : Source → Source → Prop}

theorem Bond.closed_sources (hdraw : V.DrawsAlike related) :
    (Bond.sources related).Closed (.within V) where
  host handle key w w' _ hw := by
    -- The log is common, so the host answers both alike, whatever it makes of it.
    obtain ⟨hsource, heq⟩ := hw
    rw [heq]
    exact .inr ⟨rfl, hsource, rfl⟩
  draw w w' hdice hw := by
    obtain ⟨hsource, heq⟩ := hw
    obtain ⟨hsame, hnext⟩ := hdraw hdice _ _ hsource
    obtain ⟨hgenerator, hstate⟩ := Prod.mk.inj hsame
    refine ⟨hgenerator, hstate, fun n => ⟨hnext n, ?_⟩⟩
    rw [heq]
  name w w' _ _ hw := by
    obtain ⟨hsource, heq⟩ := hw
    rw [heq]
    exact ⟨rfl, fun n => ⟨hsource, rfl⟩⟩
  openCache w w' hw := by
    obtain ⟨hsource, heq⟩ := hw
    rw [heq]
    exact ⟨trivial, hsource, rfl⟩
  remember w w' k k' key v _ hw := by
    obtain ⟨hsource, heq⟩ := hw
    rw [heq]
    exact ⟨hsource, rfl⟩
  value_of_apart _ _ h := h.elim
  grow _ _ _ _ h := h.elim

/-- What is within a vocabulary comes to the same, and the sources stay related. -/
theorem Expr.Within.eval_sources {e : Expr} (h : e.Within V) (hdraw : V.DrawsAlike related)
    {scope scope' : Scope}
    (hs : (Bond.sources related).Binds (.within V) (fun _ _ => False) scope scope') {w w' : World}
    (hw : (Bond.sources related).alike w w') :
    ((e.eval scope).run.run w).1 = ((e.eval scope').run.run w').1 ∧
      (Bond.sources related).alike ((e.eval scope).run.run w).2 ((e.eval scope').run.run w').2 := by
  have hagree := (h : e.Within (Means.within V).toVocabulary).together (Means.closed_within V)
    (Bond.closed_sources hdraw) hs w w' (.of_no_links hw)
  exact hagree.same id

/-! ### One name more -/

/-- The two environments answer all other names together. -/
theorem Bond.binds_insert {A : Means} {b : Bond} {links : Links} (hA : A.Closed) (hb : b.Closed A)
    {env : Environment} {k : String} {v : Value} (hk : ∀ n, A.name n → n ≠ k)
    (hold : A.object env.toObject) (hnew : A.object (env.insert k v).toObject) :
    b.Binds A links (.object env.toObject) (.object (env.insert k v).toObject) := by
  refine ⟨fun more _ n hn => ?_, fun hv log => ?_, fun hv log => ?_⟩
  · show b.Together A more _ ((env.insert k v).query n) _
    rw [env.query_insert, if_neg (hk n hn)]
    exact (hb.binds_object hA more hold).both more le_rfl n hn
  · exact (Contract.closed_logged hv log).answers_object hA hold
  · exact (Contract.closed_logged hv log).answers_object hA hnew

theorem Formula.coincide_insert (f : Formula) {k : String} (hk : f.expr.Within (.without k))
    (env : Environment) (v : Value) (w : World) :
    Coincide ((f.run (env.insert k v).toObject).run.run w)
      ((f.run env.toObject).run.run w) := by
  have hdraw : (Vocabulary.without k).DrawsAlike (· = ·) := by
    rintro - s _ rfl
    exact ⟨rfl, fun _ => rfl⟩
  have hA := Means.closed_within (.without k)
  have hbinds : (Bond.sources (· = ·)).Binds (.within (.without k)) (fun _ _ => False)
      (.object env.toObject) (.object (env.insert k v).toObject) :=
    Bond.binds_insert hA (Bond.closed_sources hdraw) (fun _ hn => hn) trivial trivial
  obtain ⟨hsame, hsource, heq⟩ := hk.eval_sources hdraw hbinds (w := w) ⟨rfl, rfl⟩
  obtain ⟨hgenerator, hstate⟩ := Prod.mk.inj hsource
  rw [← hgenerator, ← hstate] at heq
  exact ⟨hsame.symm, heq⟩

/-- Without dice the random numbers do not matter, and none is drawn. -/
theorem Formula.run_diceless (f : Formula) (h : f.expr.Within .diceless) (env : Object) (w : World)
    (generator : Generator) (state : Nat) :
    let y := (f.run env).run.run w
    let y' := (f.run env).run.run { w with generator := generator, state := state }
    y'.1 = y.1 ∧ y'.2 = { y.2 with generator := generator, state := state, caches := y'.2.caches } ∧
      y.2.generator = w.generator ∧ y.2.state = w.state := by
  intro y y'
  have hdraw : Vocabulary.diceless.DrawsAlike fun s s' => s = w.source ∧ s' = (generator, state) :=
    fun hdice => absurd rfl hdice
  have hbinds := (Bond.closed_sources hdraw).binds_object (Means.closed_within .diceless)
    (fun _ _ => False) (o := env) trivial
  have hstart : (Bond.sources fun s s' => s = w.source ∧ s' = (generator, state)).alike w
      { w with generator := generator, state := state } := ⟨⟨rfl, rfl⟩, rfl⟩
  obtain ⟨hsame, ⟨hleft, hright⟩, heq⟩ := h.eval_sources hdraw hbinds hstart
  obtain ⟨hgenerator, hstate⟩ := Prod.mk.inj hleft
  obtain ⟨hgenerator', hstate'⟩ := Prod.mk.inj hright
  rw [hgenerator', hstate'] at heq
  exact ⟨hsame.symm, heq, hgenerator, hstate⟩

/-- **A formula depends on its environment only through its names.** With one more name that
it does not mention it comes to the same. A formula without dice moreover comes to the same
with any source of random numbers, and draws none. -/
theorem Formula.run_insert (f : Formula) {k : String} (hk : f.expr.Within (.without k))
    (env : Environment) (v : Value) (w : World) :
    Coincide ((f.run (env.insert k v).toObject).run.run w) ((f.run env.toObject).run.run w) ∧
      (f.expr.Within .diceless → ∀ generator state,
        let y := (f.run env.toObject).run.run w
        let y' := (f.run (env.insert k v).toObject).run.run
          { w with generator := generator, state := state }
        y'.1 = y.1 ∧
          y'.2 = { y.2 with generator := generator, state := state, caches := y'.2.caches } ∧
          y.2.generator = w.generator ∧ y.2.state = w.state) := by
  refine ⟨f.coincide_insert hk env v w, fun hdiceless generator state => ?_⟩
  obtain ⟨hsame, hworld⟩ :=
    f.coincide_insert hk env v { w with generator := generator, state := state }
  obtain ⟨hsame', hworld', hgenerator, hstate⟩ := f.run_diceless hdiceless env.toObject w generator
    state
  refine ⟨hsame.trans hsame', ?_, hgenerator, hstate⟩
  rw [hworld, hworld']

/-- A name that is neither in the clause, nor in the text, nor in the expression for elements. -/
theorem run_insert_spare :
    let f : Formula := ⟨"map([a, 7], value + x) where x = size(['{b}'])",
      .clauses (.call .map [.list [.name "a", .integer 7],
        .binary .add (.name "value") (.name "x")])
        [("x", .call .size [.list [.text "" [(0, .name "b")]]])]⟩
    let env : Environment := ⟨[("a", .integer 1)], .layer [("b", .text "t")] .nothing⟩
    let w := World.fresh (.ofWords fun _ => 0) fun _ _ => .ok .missing
    Formula.compile f.source = .ok f ∧ f.expr.Within (.without "spare") ∧
      Coincide ((f.run (env.insert "spare" (.object 0 (.host 5))).toObject).run.run w)
        ((f.run env.toObject).run.run w) ∧
      ((f.run (env.insert "spare" (.object 0 (.host 5))).toObject).run.run
        { w with generator := .ofWords fun n => n.toUInt64, state := 3 }).1 =
          .ok (.list [.integer 2, .integer 8]) := by
  intro f env w
  have within {V : Vocabulary} (hnames : ∀ n ∈ ["a", "value", "x", "b"], V.name n)
      (hadd : V.operator .add) (hmap : V.call .map 2) (hsize : V.call .size 1) :
      f.expr.Within V := by
    simp only [List.forall_mem_cons] at hnames
    obtain ⟨ha, hvalue, hx, hb, -⟩ := hnames
    have hlist : (Expr.list [.name "a", .integer 7]).Within V :=
      .list (List.forall_mem_cons.2 ⟨.name ha, List.forall_mem_singleton.2 (.integer 7)⟩)
    have hsum : (Expr.binary .add (.name "value") (.name "x")).Within V :=
      .binary hadd (.name hvalue) (.name hx)
    have htext : (Expr.text "" [(0, .name "b")]).Within V :=
      .text (List.forall_mem_singleton.2 (.name hb))
    have hclause : (Expr.call .size [.list [.text "" [(0, .name "b")]]]).Within V :=
      .call hsize (List.forall_mem_singleton.2 (.list (List.forall_mem_singleton.2 htext)))
    exact .clauses (.call hmap (List.forall_mem_cons.2 ⟨hlist, List.forall_mem_singleton.2 hsum⟩))
      (List.forall_mem_singleton.2 hclause)
  have hwithout : f.expr.Within (.without "spare") :=
    within (by simp [Vocabulary.without]) trivial trivial trivial
  have hdiceless : f.expr.Within .diceless :=
    within (fun _ _ => trivial) (show BinaryOp.add ≠ .dice by decide) trivial trivial
  have hcompile : Formula.compile f.source = .ok f := by cbv
  obtain ⟨hsame, hany⟩ := f.run_insert hwithout env (.object 0 (.host 5)) w
  exact ⟨hcompile, hwithout, hsame, (hany hdiceless _ _).1.trans rfl⟩

end Formulary
