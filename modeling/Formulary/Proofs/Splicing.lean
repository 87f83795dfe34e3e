import Formulary.Formula
import Formulary.Proofs.Cutting
import Formulary.Proofs.Finding
import Formulary.Proofs.Lexeme
import Formulary.Proofs.Outcome
import Formulary.Proofs.Placement
import Mathlib

/-! What a text with fragments comes to.

A fragment holds no closing brace, so it makes no difference that the text literals in it are
taken as they stand (`parseFragment_eq`).

The fragments are stored from back to front, each with the length of the plain text before it.
They are run in that order, and the text that a value is put into is the plain text up to the
fragment and, behind it, what the fragments behind have made of the rest (`run_splice_stored`).
In the end each value stands in the place of its fragment (`template_splices`).

A whole text can be a template, or stand in quotes in a formula. That makes no difference
(`compile_quoted`). -/
namespace Formulary

/-! ### Reading a fragment -/

/-- A text without a closing brace stands for itself. -/
theorem parse_without_close {s : String} (h : '}' ∉ s.toList) :
    Template.parse s = .ok (.plain s) := by
  refine parse_whole fun before behind heq hmem => absurd ?_ h
  rw [heq]
  exact List.mem_append_right before (List.mem_cons_of_mem _ hmem)

theorem unquote_subset (text : String) : (unquote text).toList ⊆ text.toList := by
  rw [unquote, String.toList_ofList]
  exact List.Subset.trans (List.dropLast_subset _) (List.drop_subset _ _)

/-- In a fragment no text literal has fragments of its own. -/
theorem parseFragment_eq {fragment : String} (h : '}' ∉ fragment.toList) :
    parseFragment fragment = parse fragment := by
  unfold parseFragment parse parseSource
  cases htokens : tokenize fragment with
  | error e => rfl
  | ok tokens =>
    refine parseTokens_congr fun t ht _ => ?_
    have hclose : '}' ∉ (unquote t.text).toList := fun hmem =>
      h ((Lexer.text_infix_of_tokens htokens t ht).subset (unquote_subset t.text hmem))
    rw [parse_without_close hclose]

/-! ### Values between plain texts -/

/-- Plain texts, each with a value behind it. -/
def weave (plains : List (List Char)) (values : List Value) : List Char :=
  (List.zipWith (fun plain v => plain ++ v.display.toList) plains values).flatten

theorem weave_concat {plains : List (List Char)} {values : List Value}
    (h : plains.length = values.length) (plain : List Char) (v : Value) :
    weave (plains ++ [plain]) (values ++ [v]) =
      weave plains values ++ (plain ++ v.display.toList) := by
  simp [weave, List.zipWith_append h]

/-- The text with a value in the place of each fragment. -/
def Pieces.filled (p : Pieces) (values : List Value) : String :=
  String.ofList (weave (p.fragments.map Prod.fst) values ++ p.tail)

/-! ### How fragments are stored -/

namespace Template

/-- Trees at the end of the plain texts before them, of which the first begins at a byte. -/
def stored : Nat → List (List Char × Expr) → List (Nat × Expr)
  | _, [] => []
  | start, (plain, e) :: rest =>
    let position := start + Text.byteLength plain
    (position, e) :: stored position rest

theorem stored_concat (start : Nat) (parts : List (List Char × Expr)) (plain : List Char)
    (e : Expr) :
    stored start (parts ++ [(plain, e)]) =
      stored start parts ++
        [(start + Text.byteLength ((parts.map Prod.fst).flatten ++ plain), e)] := by
  induction parts generalizing start with
  | nil => simp [stored]
  | cons p parts ih => simp [stored, ih, Nat.add_assoc]

variable {compile : String → Except ParseError Expr} {fragments : List (List Char × List Char)}

/-- Fragments that all compile are stored. -/
theorem compileFragments_eq_ok {es : List Expr} (start : Nat)
    (h : List.Forall₂ (fun f e => compile (String.ofList f.2) = .ok e) fragments es) :
    compileFragments compile start fragments =
      .ok (stored start ((fragments.map Prod.fst).zip es)) := by
  induction h generalizing start with
  | nil => rfl
  | cons hf _ ih =>
    simp only [compileFragments, hf, ih]
    rfl

/-- The first fragment that does not compile is reported. -/
theorem compileFragments_eq_error {before behind : List (List Char × List Char)}
    {plain fragment : List Char} {cause : ParseError} (start : Nat)
    (hbefore : ∀ f ∈ before, ∃ e, compile (String.ofList f.2) = .ok e)
    (h : compile (String.ofList fragment) = .error cause) :
    compileFragments compile start (before ++ (plain, fragment) :: behind) =
      .error (.interpolation (String.ofList fragment) cause) := by
  induction before generalizing start with
  | nil =>
    simp only [List.nil_append, compileFragments, h]
    rfl
  | cons f before ih =>
    obtain ⟨⟨e, he⟩, hbefore⟩ := List.forall_mem_cons.1 hbefore
    simp only [List.cons_append, compileFragments, he, ih _ hbefore]
    rfl

theorem compileFragments_congr {compile' : String → Except ParseError Expr} (start : Nat)
    (h : ∀ f ∈ fragments, compile (String.ofList f.2) = compile' (String.ofList f.2)) :
    compileFragments compile start fragments = compileFragments compile' start fragments := by
  induction fragments generalizing start with
  | nil => rfl
  | cons f fragments ih =>
    obtain ⟨hf, hfragments⟩ := List.forall_mem_cons.1 h
    simp only [compileFragments, hf, ih _ hfragments]

/-- A template, from the one decomposition of its text. -/
theorem parse_eq_of_pieces {content : String} {p : Pieces} (hjoin : p.join = content.toList)
    (hp : p.Proper) :
    Template.parse content =
      (fun inserts =>
        ⟨String.ofList ((p.fragments.map Prod.fst).flatten ++ p.tail), inserts.reverse⟩) <$>
        compileFragments Formulary.parse 0 p.fragments := by
  have hcut : Pieces.cut content.toList = p := hjoin ▸ hp.cut_join
  have hcompile : compileFragments parseFragment 0 p.fragments =
      compileFragments Formulary.parse 0 p.fragments := by
    refine compileFragments_congr 0 fun f hf => parseFragment_eq ?_
    rw [String.toList_ofList]
    exact hp.fragment f hf
  rw [Template.parse, Template.ofString, hcut, hcompile]
  rfl

end Template

/-! ### Putting the values in -/

/-- A text is put in at the end of a run of characters. -/
theorem Text.insertAt_byteLength (before after : List Char) (piece : String) :
    Text.insertAt (Text.byteLength before) piece (String.ofList (before ++ after)) =
      String.ofList (before ++ (piece.toList ++ after)) := by
  apply String.toList_injective
  simp [Text.insertAt, Text.splitAtByte_byteLength]

theorem splice_cons (position : Nat) (m : Meaning) (inserts : List (Nat × Meaning)) (scope : Scope)
    (text : String) :
    splice ((position, m) :: inserts) scope text = (do
      let v ← m scope
      splice inserts scope (Text.insertAt position v.display text)) := by
  simp [splice]

open Template in
/-- Stored fragments make of their text what their values make of it. -/
theorem run_splice_stored (parts : List (List Char × Expr)) (scope : Scope) (tail : List Char)
    (w : World) :
    (splice (Expr.insertMeanings (stored 0 parts).reverse) scope
        (String.ofList ((parts.map Prod.fst).flatten ++ tail))).run.run w =
      Run.next (fun values => pure (String.ofList
          (weave (parts.map Prod.fst) values.reverse ++ tail)))
        (((parts.map Prod.snd).reverse.mapM (Expr.eval · scope)).run.run w) := by
  -- From the last fragment on: what it makes of the text behind it is the tail of the rest.
  induction parts using List.reverseRecOn generalizing tail w with
  | nil => rfl
  | append_singleton parts p ih =>
    obtain ⟨plain, e⟩ := p
    have hstored : Expr.insertMeanings (stored 0 (parts ++ [(plain, e)])).reverse =
        (Text.byteLength ((parts.map Prod.fst).flatten ++ plain), e.eval) ::
          Expr.insertMeanings (stored 0 parts).reverse := by
      rw [stored_concat, Nat.zero_add, List.reverse_append]
      rfl
    have htrees : ((parts ++ [(plain, e)]).map Prod.snd).reverse =
        e :: (parts.map Prod.snd).reverse := by
      simp
    have htext : ((parts ++ [(plain, e)]).map Prod.fst).flatten ++ tail =
        ((parts.map Prod.fst).flatten ++ plain) ++ tail := by
      simp
    rw [hstored, htrees, htext, splice_cons, List.mapM_cons, Run.run_bind, Run.run_bind]
    rcases (e.eval scope).run.run w with ⟨x | v, w₁⟩
    · rfl
    · simp only [Run.next]
      rw [Text.insertAt_byteLength, List.append_assoc, ih, Run.run_bind]
      rcases hvalues : ((parts.map Prod.snd).reverse.mapM (Expr.eval · scope)).run.run w₁ with
        ⟨x | values, w₂⟩
      · rfl
      · have hlength : (parts.map Prod.fst).length = values.reverse.length := by
          rw [List.length_reverse, Run.length_of_mapM hvalues]
          simp
        have hweave : weave (parts.map Prod.fst) values.reverse ++
            (plain ++ (v.display.toList ++ tail)) =
            weave ((parts ++ [(plain, e)]).map Prod.fst) (v :: values).reverse ++ tail := by
          rw [List.map_append, List.reverse_cons, List.map_singleton, weave_concat hlength]
          simp only [List.append_assoc]
        simp only [Run.next, hweave]
        rfl

/-- Trees stored between plain texts come to the text with their values between them. -/
theorem eval_stored {p : Pieces} {es : List Expr} (h : p.fragments.length = es.length)
    (scope : Scope) :
    Expr.eval (Template.toExpr
        ⟨String.ofList ((p.fragments.map Prod.fst).flatten ++ p.tail),
          (Template.stored 0 ((p.fragments.map Prod.fst).zip es)).reverse⟩) scope = (do
      let values ← es.reverse.mapM (Expr.eval · scope)
      pure (.text (p.filled values.reverse))) := by
  have hlength : (p.fragments.map Prod.fst).length = es.length := by
    rw [List.length_map, h]
  funext w
  have hsplice := run_splice_stored ((p.fragments.map Prod.fst).zip es) scope p.tail w
  rw [List.map_fst_zip hlength.le, List.map_snd_zip hlength.ge] at hsplice
  show (Value.text <$> splice _ scope _).run.run w = (_ >>= _ : Run Value).run.run w
  rw [Run.run_bind, map_eq_pure_bind, Run.run_bind, hsplice]
  rcases (es.reverse.mapM (Expr.eval · scope)).run.run w with ⟨_ | _, _⟩ <;> rfl

/-- **Putting values into a text is splicing.** A text has one decomposition. If all its
fragments are formulas, they are run from the last to the first, and their values come to stand
in their places; the first that fails so ends the run. If some are no formulas, the first of
these is reported, with what is wrong with it. -/
theorem template_splices (content : String) :
    (∃! p : Pieces, p.join = content.toList ∧ p.Proper) ∧
      ∀ p : Pieces, p.join = content.toList → p.Proper →
        (∀ es, List.Forall₂ (fun f e => parse (String.ofList f.2) = .ok e) p.fragments es →
          ∃ t, Template.parse content = .ok t ∧ ∀ scope,
            (t.toExpr.eval scope = do
              let values ← es.reverse.mapM (Expr.eval · scope)
              pure (.text (p.filled values.reverse))) ∧
            ∀ before e behind values x w w₁ w₂, es = before ++ e :: behind →
              (behind.reverse.mapM (Expr.eval · scope)).run.run w = (.ok values, w₁) →
              (e.eval scope).run.run w₁ = (.error x, w₂) →
              (t.toExpr.eval scope).run.run w = (.error x, w₂)) ∧
        ∀ before plain fragment behind cause,
          p.fragments = before ++ (plain, fragment) :: behind →
          (∀ f ∈ before, ∃ e, parse (String.ofList f.2) = .ok e) →
          parse (String.ofList fragment) = .error cause →
          Template.parse content = .error (.interpolation (String.ofList fragment) cause) := by
  refine ⟨Pieces.existsUnique_pieces content.toList, fun p hjoin hp => ⟨?parsed, ?refused⟩⟩
  case parsed =>
    intro es hes
    have hparse := Template.parse_eq_of_pieces hjoin hp
    rw [Template.compileFragments_eq_ok 0 hes] at hparse
    refine ⟨_, hparse, fun scope => ?_⟩
    have heval := eval_stored hes.length_eq scope
    refine ⟨heval, fun before e behind values x w w₁ w₂ hsplit hbehind he => ?_⟩
    have hreverse : es.reverse = behind.reverse ++ e :: before.reverse := by
      simp [hsplit]
    rw [heval, Run.run_bind, hreverse, Run.mapM_eq_error hbehind he]
    rfl
  case refused =>
    intro before plain fragment behind cause hsplit hbefore hfragment
    rw [Template.parse_eq_of_pieces hjoin hp, hsplit,
      Template.compileFragments_eq_error 0 hbefore hfragment]
    rfl

/-- In `é{1d6}{a}ß{b} {c` fragments stand beside each other, one with a roll of dice, before a
brace that nothing closes; in `{a}{1+}{)}` the first of two that are no formulas is reported. -/
theorem splices_between_braces :
    (∃ t, Template.parse "é\x7b1d6\x7d\x7ba\x7dß\x7bb\x7d \x7bc" = .ok t ∧
      ((t.toExpr.eval (.elements [("a", .integer 7), ("b", .text "x")] (.object .nothing))).run.run
        (World.fresh (.ofWords fun _ => 3) fun _ _ => .ok .missing)).1 = .ok (.text "é47ßx \x7bc") ∧
      ∃ w₂, (t.toExpr.eval (.elements [("b", .text "x")] (.object (.host 0)))).run.run
        (World.fresh (.ofWords fun _ => 3) fun _ _ => .error .divisionByZero) =
          (.error .divisionByZero, w₂) ∧ w₂.state = 0) ∧
      Template.parse "\x7ba\x7d\x7b1+\x7d\x7b)\x7d" =
        .error (.interpolation "1+" .emptyExpression) := by
  constructor
  · obtain ⟨-, hsplices⟩ := template_splices "é\x7b1d6\x7d\x7ba\x7dß\x7bb\x7d \x7bc"
    have hcut : Pieces.cut "é\x7b1d6\x7d\x7ba\x7dß\x7bb\x7d \x7bc".toList =
        ⟨[(['é'], ['1', 'd', '6']), ([], ['a']), (['ß'], ['b'])], [' ', '{', 'c']⟩ := by cbv
    obtain ⟨hparsed, -⟩ := hsplices _ (Pieces.cut_join _) (Pieces.proper_cut _)
    rw [hcut] at hparsed
    obtain ⟨t, ht, heval⟩ := hparsed
      [.binary .dice (.integer 1) (.integer 6), .name "a", .name "b"]
      (.cons (by cbv) (.cons (by cbv) (.cons (by cbv) .nil)))
    refine ⟨t, ht, ?_, ?_⟩
    · rw [(heval _).1]
      rfl
    · exact ⟨_, (heval _).2 [.binary .dice (.integer 1) (.integer 6)] (.name "a") [.name "b"]
        [.text "x"] .divisionByZero _ _ _ rfl rfl rfl, rfl⟩
  · obtain ⟨-, hsplices⟩ := template_splices "\x7ba\x7d\x7b1+\x7d\x7b)\x7d"
    have hcut : Pieces.cut "\x7ba\x7d\x7b1+\x7d\x7b)\x7d".toList =
        ⟨[([], ['a']), ([], ['1', '+']), ([], [')'])], []⟩ := by cbv
    obtain ⟨-, hrefused⟩ := hsplices _ (Pieces.cut_join _) (Pieces.proper_cut _)
    rw [hcut] at hrefused
    exact hrefused [([], ['a'])] [] ['1', '+'] [([], [')'])] .emptyExpression rfl
      (List.forall_mem_singleton.2 ⟨.name "a", by cbv⟩) (by cbv)

/-! ### Quoted texts -/

/-- The formula of a text in quotes is that of the text as a template, but for the source. -/
theorem Formula.compile_quoted_eq {t : String} (h : '\'' ∉ t.toList) :
    compile ("'" ++ t ++ "'") =
      (fun f : Formula => ⟨"'" ++ t ++ "'", f.expr⟩) <$> ofTemplate t := by
  rw [compile, parse_quoted h, ofTemplate]
  cases Template.parse t <;> rfl

/-- **A text in quotes and the text as a template** are the same formula: both are refused with
the same error, or both come to the same tree and so to the same in every environment. -/
theorem Formula.compile_quoted {t : String} (h : '\'' ∉ t.toList) :
    let quoted := compile ("'" ++ t ++ "'")
    let template := ofTemplate t
    ((∃ f, quoted = .ok f) ↔ ∃ g, template = .ok g) ∧
      (∀ x, quoted = .error x ↔ template = .error x) ∧
      ∀ f g, quoted = .ok f → template = .ok g →
        f.expr = g.expr ∧ f.run = g.run ∧ f.runOrMissing = g.runOrMissing := by
  intro quoted template
  have hsame : quoted = (fun f : Formula => ⟨"'" ++ t ++ "'", f.expr⟩) <$> template :=
    compile_quoted_eq h
  refine ⟨?_, fun x => ?_, fun f g hf hg => ?_⟩
  · rcases hg : template with x | g <;> simp [hsame, hg]
  · rcases hg : template with x | g <;> simp [hsame, hg]
  · have hexpr : f.expr = g.expr := by
      rw [hsame, hg] at hf
      obtain rfl := Except.ok.inj hf
      rfl
    have hrun : f.run = g.run := by
      funext env
      rw [Formula.run, Formula.run, hexpr]
    refine ⟨hexpr, hrun, ?_⟩
    funext env
    rw [runOrMissing, runOrMissing, hrun]

/-- Brackets and operators outside braces are text, and so is a brace that nothing closes; what
is wrong with a fragment is reported. -/
theorem compile_quoted_brackets :
    (∃ f g, Formula.compile "'é) + [\x7b1\x7d\n \x7b'" = .ok f ∧
      Formula.ofTemplate "é) + [\x7b1\x7d\n \x7b" = .ok g ∧
      f.expr = .text "é) + [\n \x7b" [(7, .integer 1)] ∧ f.expr = g.expr ∧ f.run = g.run) ∧
      Formula.compile "'\x7b1+\x7d'" = .error (.interpolation "1+" .emptyExpression) ∧
      Formula.ofTemplate "\x7b1+\x7d" = .error (.interpolation "1+" .emptyExpression) := by
  constructor
  · obtain ⟨hsucceeds, -, hsame⟩ :=
      Formula.compile_quoted (by decide : '\'' ∉ "é) + [\x7b1\x7d\n \x7b".toList)
    have hg : Formula.ofTemplate "é) + [\x7b1\x7d\n \x7b" =
        .ok ⟨"é) + [\x7b1\x7d\n \x7b", .text "é) + [\n \x7b" [(7, .integer 1)]⟩ := by cbv
    obtain ⟨f, hf⟩ := hsucceeds.2 ⟨_, hg⟩
    obtain ⟨hexpr, hrun, -⟩ := hsame _ _ hf hg
    exact ⟨f, _, hf, hg, hexpr, hexpr, hrun⟩
  · obtain ⟨-, herror, -⟩ := Formula.compile_quoted (by decide : '\'' ∉ "\x7b1+\x7d".toList)
    have hg : Formula.ofTemplate "\x7b1+\x7d" = .error (.interpolation "1+" .emptyExpression) := by
      cbv
    exact ⟨(herror _).2 hg, hg⟩

end Formulary
