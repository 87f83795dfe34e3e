import Formulary.Formula
import Formulary.Proofs.Outcome
import Formulary.Proofs.Rendering

/-! Paths into documents.

A path goes from a document to one of its parts, by keys of records and indexes of lists. Behind
the name of a document, with a dot before each step, it is a formula, and the dots group to the
left (`parse_path`). So the formula takes one step after the other: an index is looked up in the
scope around it, where it is a number, and a key in the record itself, whose fields become values
only then (`eval_step`). What it comes to is the part of the document as a value, and 0 if the
last key is missing (`run_path`). -/
namespace Formulary

/-- A step from a document to a part of it. -/
inductive Step where
  | key (name : String)
  | index (i : Nat)
  deriving DecidableEq, Repr

namespace Step

def spelling : Step → String
  | key name => name
  | index i => i.repr

def selector : Step → Expr
  | key name => .name name
  | index i => .integer (Int64.ofInt i)

/-- A key that is a name, or an index that fits: no list in memory has a greater one. -/
def Writable : Step → Prop
  | key name => IsName name
  | index i => Word.Fits i

end Step

namespace Document

/-- The part of a document that a step goes to. -/
def part? : Document → Step → Option Document
  | record fields, .key name => fields.lookup name
  | list items, .index i => items[i]?
  | _, _ => none

/-- The part of a document at the end of a path. -/
def at? (d : Document) (path : List Step) : Option Document :=
  path.foldlM part? d

/-- The document becomes this value, with some identities of its objects. -/
def Becomes (d : Document) (v : Value) : Prop :=
  ∃ free, (Value.ofDocument free d).1 = v

end Document

/-- The expression that takes one step after the other. -/
def Expr.along (e : Expr) (path : List Step) : Expr :=
  path.foldl (fun e s => .member e s.selector) e

/-- The steps as they are written, with a dot before each. -/
def dotted : List Step → String
  | [] => ""
  | s :: path => "." ++ s.spelling ++ dotted path

/-- The formula that goes along a path, from what a name stands for. -/
def pathSource (root : String) (path : List Step) : String :=
  root ++ dotted path

/-! ### Reading -/

variable {root : String} {path : List Step} {s : Step} {l : Lexer} {rest : List Char}

theorem findsAtom_step (hs : s.Writable) (hl : l.rest = s.spelling.toList ++ rest)
    (hrest : EndsWord rest) : FindsAtom l (· = s.selector) rest := by
  cases s with
  | key name => exact findsAtom_name hs hl hrest
  | index i => exact findsAtom_natural (Word.toInt_ofInt hs) hl hrest.endsDigits rfl

theorem endsWord_dotted (path : List Step) : EndsWord (dotted path).toList := by
  cases path with
  | nil => exact endsWord_nil
  | cons s path =>
    rw [dotted, String.toList_append, String.toList_append]
    exact endsWord_cons rfl _

/-- A dot and a step are a link of a chain. -/
def Step.link (s : Step) : Link := ⟨.member, [], s.selector⟩

/-- The steps of a path are read as the links of a chain. -/
theorem exists_links (hpath : ∀ s ∈ path, s.Writable) (hl : l.rest = (dotted path).toList) :
    ∃ (links : List (JointToken × Operand Template.parse)) (p : Nat),
      l.Passes (Chain.linkTokens links) ⟨[], p⟩ ∧ links.map Chain.toLink = path.map Step.link := by
  induction path generalizing l with
  | nil => exact ⟨[], l.position, .start hl, rfl⟩
  | cons s path ih =>
    obtain ⟨hs, hpath⟩ := List.forall_mem_cons.1 hpath
    have hl' : l.rest = '.' :: (s.spelling.toList ++ (dotted path).toList) := by
      simpa [dotted] using hl
    have hscan : ∀ cs, scan ('.' :: cs) = .lexeme .operator ['.'] cs := fun _ => rfl
    obtain ⟨p, hdot⟩ := (Lexer.Passes.start hl').single (hscan _) (by decide) (by decide)
    obtain ⟨a, q, hstep, ha⟩ : FindsAtom ⟨_, p⟩ (· = s.selector) (dotted path).toList :=
      findsAtom_step hs rfl (endsWord_dotted path)
    obtain ⟨links, q', hlinks, hmap⟩ := ih (l := ⟨_, q⟩) hpath rfl
    let dot : JointToken := ⟨⟨.operator, ".", l.position⟩, .member, rfl, rfl⟩
    refine ⟨(dot, ⟨[], a⟩) :: links, q', (hdot.append hstep).append hlinks, ?_⟩
    have hlink : Chain.toLink (dot, ⟨[], a⟩) = s.link := by
      rw [Step.link, ← ha]
      rfl
    rw [List.map_cons, hlink, hmap, List.map_cons]

/-- The dots of a path group to the left. -/
theorem parse_path (hroot : IsName root) (hpath : ∀ s ∈ path, s.Writable) :
    parse (pathSource root path) = .ok ((Expr.name root).along path) := by
  have hl : (Lexer.ofString (pathSource root path)).rest = root.toList ++ (dotted path).toList :=
    String.toList_append
  obtain ⟨a, p, ha, hname⟩ := findsAtom_name hroot hl (endsWord_dotted path)
  obtain ⟨links, q, hlinks, hmap⟩ := exists_links (l := ⟨_, p⟩) hpath rfl
  let chain : Chain Template.parse := ⟨⟨[], a⟩, links⟩
  have htokens : tokenize (pathSource root path) = .ok chain.tokens :=
    Lexer.tokens_at_end (ha.append hlinks) rfl
  obtain ⟨hparse, -, hband⟩ := chain.parseTokens_chain
  have hdots : ∀ link ∈ links, link.1.joint.strength = Joint.member.strength := by
    intro link hlink
    have hmem := List.mem_map_of_mem (f := Chain.toLink) hlink
    rw [hmap] at hmem
    obtain ⟨s, -, hs⟩ := List.mem_map.1 hmem
    exact congrArg (fun l : Link => l.joint.strength) hs.symm
  rw [parse, parseSource, htokens]
  refine hparse.trans (congrArg Except.ok ?_)
  rw [hband _ rfl hdots, if_neg (by decide)]
  show leftGrouped a.tree (links.map Chain.toLink) = _
  rw [hmap, hname, leftGrouped, List.foldl_map]
  rfl

/-! ### Evaluation -/

variable {d d' : Document} {v : Value} {e : Expr} {scope : Scope} {w w' : World}

/-- Each element of a list becomes a value. -/
theorem Document.becomes_getElem? {items : List Document} {i : Nat} (h : items[i]? = some d)
    (free : Nat) : ∃ v, (Value.ofDocuments free items).1[i]? = some v ∧ d.Becomes v := by
  induction items generalizing i free with
  | nil => cases h
  | cons first items ih =>
    cases i with
    | zero =>
      obtain rfl := Option.some.inj h
      exact ⟨_, rfl, free, rfl⟩
    | succ i => exact ih h _

theorem Value.element_of_getElem? {items : List Value} {i : Nat} (hi : Word.Fits i)
    (h : items[i]? = some v) : (Value.list items).element (Int64.ofInt i) = .ok v := by
  have hindex : (Int64.ofInt i).toInt = i := Word.toInt_ofInt hi
  have hnot : ¬ (i : Int) < 0 := Int.not_lt.2 (Int.natCast_nonneg i)
  simp only [element, asList, bind, Except.bind, hindex, if_neg hnot, Int.toNat_natCast, h]
  rfl

theorem Expr.run_member {selector : Expr} (he : (e.eval scope).run.run w = (.ok v, w')) :
    ((member e selector).eval scope).run.run w =
      (selectMember v selector.eval scope).run.run w' := by
  have hmember : (member e selector).eval scope = (do
      let v ← e.eval scope
      selectMember v selector.eval scope) := rfl
  rw [hmember, Run.run_bind, he]
  rfl

/-- A key is asked of the record itself, whatever the scope. -/
theorem selectMember_key (free : Nat) (fields : List (String × Document)) (name : String) :
    selectMember (Value.ofDocument free (.record fields)).1 (Expr.name name).eval scope =
      (liftM ((Object.record fields).get name) : Run Value) := rfl

/-- A step inside the value of a document comes to the value of its part. -/
theorem Expr.eval_step (hs : s.Writable) (hpart : d.part? s = some d') (hd : d.Becomes v)
    (he : (e.eval scope).run.run w = (.ok v, w')) :
    ∃ v' w₁, ((member e s.selector).eval scope).run.run w = (.ok v', w₁) ∧ d'.Becomes v' := by
  obtain ⟨free, rfl⟩ := hd
  rw [run_member he]
  cases d with
  | record fields =>
    cases s with
    | index i => cases hpart
    | key name =>
      have hfield : fields.lookup name = some d' := hpart
      rw [Step.selector, selectMember_key, Object.get, hfield]
      exact ⟨_, _, rfl, w'.free, rfl⟩
  | list items =>
    cases s with
    | key name => cases hpart
    | index i =>
      obtain ⟨v, hv, hd'⟩ := Document.becomes_getElem? hpart free
      exact ⟨v, w', Run.ofExcept_eq_ok_iff.2 ⟨Value.element_of_getElem? hs hv, rfl⟩, hd'⟩
  | null | bool | integer | double | text => cases hpart

/-- Only a record has keys, and a key that is not there comes to 0. -/
theorem Expr.eval_missing_key {fields : List (String × Document)} {name : String}
    (hmissing : fields.lookup name = none) (hd : (Document.record fields).Becomes v)
    (he : (e.eval scope).run.run w = (.ok v, w')) :
    ((member e (.name name)).eval scope).run.run w = (.ok (.integer 0), w') := by
  obtain ⟨free, rfl⟩ := hd
  rw [run_member he, selectMember_key, Object.get, hmissing]
  rfl

/-- Step by step, a path inside the value of a document comes to the value of its part. -/
theorem Expr.eval_path (hpath : ∀ s ∈ path, s.Writable) (hpart : d.at? path = some d')
    (hd : d.Becomes v) (he : (e.eval scope).run.run w = (.ok v, w')) :
    ∃ v' w₁, ((e.along path).eval scope).run.run w = (.ok v', w₁) ∧ d'.Becomes v' := by
  induction path generalizing d e v w' with
  | nil =>
    obtain rfl := Option.some.inj hpart
    exact ⟨v, w', he, hd⟩
  | cons s path ih =>
    obtain ⟨hs, hpath⟩ := List.forall_mem_cons.1 hpath
    rw [Document.at?, List.foldlM_cons] at hpart
    obtain ⟨d₁, hstep, hrest⟩ := Option.bind_eq_some_iff.1 hpart
    obtain ⟨v₁, w₁, he₁, hd₁⟩ := eval_step hs hstep hd he
    exact ih hpath hrest hd₁ he₁

/-- **Paths into documents.** A path from the value of a document is a formula. Where the path
goes to a part of the document, the formula comes to the value of that part, and where only the
last key is missing, to 0. -/
theorem Formula.run_path {env : Object} {free : Nat} (hroot : IsName root)
    (hpath : ∀ s ∈ path, s.Writable)
    (henv : (env.query root).run.run w = (.ok (Value.ofDocument free d).1, w')) :
    ∃ f, Formula.compile (pathSource root path) = .ok f ∧
      (∀ d', d.at? path = some d' →
        ∃ v w₁, (f.run env).run.run w = (.ok v, w₁) ∧ d'.Becomes v) ∧
      ∀ before name fields, path = before ++ [.key name] →
        d.at? before = some (.record fields) → fields.lookup name = none →
        ∃ w₁, (f.run env).run.run w = (.ok (.integer 0), w₁) := by
  have hname : ((Expr.name root).eval (.object env)).run.run w =
      (.ok (Value.ofDocument free d).1, w') := henv
  refine ⟨⟨pathSource root path, (Expr.name root).along path⟩, ?_, fun d' hpart => ?_, ?_⟩
  · rw [compile, parse_path hroot hpath]
    rfl
  · exact Expr.eval_path hpath hpart ⟨free, rfl⟩ hname
  · rintro before name fields rfl hpart hmissing
    have hbefore : ∀ s ∈ before, s.Writable := fun s hs => hpath s (List.mem_append_left _ hs)
    obtain ⟨v, w₁, hrun, hv⟩ := Expr.eval_path hbefore hpart ⟨free, rfl⟩ hname
    rw [Formula.run, Expr.along, List.foldl_append]
    exact ⟨w₁, Expr.eval_missing_key hmissing hv hrun⟩

/-- Through a list to a text, and to a key that is not there. -/
theorem run_path_through_list :
    let inner : Document := .record [("b_1", .text "x")]
    let d : Document := .record [("a", .list [.integer 7, inner])]
    let env := (Environment.empty.insert "doc" (Value.ofDocument 0 d).1).toObject
    let w := World.fresh (.ofWords fun _ => 0) fun _ _ => .ok .missing
    (∃ f w₁, Formula.compile "doc.a.1.b_1" = .ok f ∧
        (f.run env).run.run w = (.ok (.text "x"), w₁)) ∧
      ∃ f w₁, Formula.compile "doc.a.1.c" = .ok f ∧
        (f.run env).run.run w = (.ok (.integer 0), w₁) := by
  intro inner d env w
  have henv : (env.query "doc").run.run w = (.ok (Value.ofDocument 0 d).1, w) := rfl
  have hdoc : IsName "doc" := ⟨rfl, rfl⟩
  have hbefore : ∀ s ∈ [Step.key "a", .index 1], s.Writable :=
    List.forall_mem_cons.2 ⟨⟨rfl, rfl⟩, List.forall_mem_singleton.2 (by decide : Word.Fits 1)⟩
  have hpath (last : String) (h : IsName last) :
      ∀ s ∈ [Step.key "a", .index 1] ++ [.key last], s.Writable :=
    List.forall_mem_append.2 ⟨hbefore, List.forall_mem_singleton.2 h⟩
  constructor
  · obtain ⟨f, hf, hpart, -⟩ := Formula.run_path hdoc (hpath "b_1" ⟨rfl, rfl⟩) henv
    obtain ⟨v, w₁, hrun, free, rfl⟩ := hpart (.text "x") rfl
    exact ⟨f, w₁, hf, hrun⟩
  · obtain ⟨f, hf, -, hmissing⟩ := Formula.run_path hdoc (hpath "c" ⟨rfl, rfl⟩) henv
    obtain ⟨w₁, hrun⟩ := hmissing [.key "a", .index 1] "c" [("b_1", .text "x")] rfl rfl rfl
    exact ⟨f, w₁, hf, hrun⟩

end Formulary
