import Formulary.Proofs.Operand
import Mathlib

/-! Operator chains as tokens.

A chain is an operand, then infix operators and operands in turn. Outside brackets the only
operators with an operand before them are the infix ones (`candidates_chain`), wherever
prefix operators stand. Cutting spans at their loosest operator therefore gives the tree
that climbing gives: `parseTokens_chain`. -/
namespace Formulary

variable {literal : String → Except ParseError Template}

/-! ### Chains -/

/-- A token for an infix operator. -/
structure JointToken where
  token : Token
  joint : Joint
  isOperator : token.isOperator = true
  spells : token.text = joint.spelling

/-- An operand, and behind it infix operators with an operand each. -/
structure Chain (literal : String → Except ParseError Template) where
  head : Operand literal
  links : List (JointToken × Operand literal)

theorem JointToken.strength_eq (j : JointToken) : j.token.strength = j.joint.strength := by
  rw [Token.strength, j.spells]
  rfl

namespace Chain

def linkTokens (links : List (JointToken × Operand literal)) : List Token :=
  links.flatMap fun link => link.1.token :: link.2.tokens

def tokens (c : Chain literal) : List Token :=
  c.head.tokens ++ linkTokens c.links

def toLink (link : JointToken × Operand literal) : Link where
  joint := link.1.joint
  prefixes := link.2.prefixes.map PrefixToken.op
  tree := link.2.atom.tree

/-- What climbing reads from the chain: a tree, and the links left behind it. -/
def climb (c : Chain literal) : Expr × List Link :=
  (Formulary.climb 0 (c.head.prefixes.map PrefixToken.op) c.head.atom.tree (c.links.map toLink)).1

/-! ### The operators of a chain -/

theorem nested_linkTokens (links : List (JointToken × Operand literal)) :
    Nested (linkTokens links) := by
  induction links with
  | nil => exact nested_nil
  | cons link links ih =>
    exact (Nested.cons (Token.isPlain_of_isOperator link.1.isOperator) link.2.nested).append ih

theorem nested (c : Chain literal) : Nested c.tokens :=
  c.head.nested.append (nested_linkTokens c.links)

/-- The infix operators of the links, with their positions. -/
def marks : Nat → List (JointToken × Operand literal) → List (Nat × Token)
  | _, [] => []
  | start, link :: links =>
    (start, link.1.token) :: marks (start + (link.1.token :: link.2.tokens).length) links

theorem mem_marks (start : Nat) {links : List (JointToken × Operand literal)}
    {link : JointToken × Operand literal} (h : link ∈ links) :
    ∃ position, (position, link.1.token) ∈ marks start links := by
  induction links generalizing start with
  | nil => cases h
  | cons link' links ih =>
    rcases List.mem_cons.1 h with rfl | h
    · exact ⟨start, List.mem_cons_self⟩
    · obtain ⟨position, hmem⟩ := ih _ h
      exact ⟨position, List.mem_cons_of_mem _ hmem⟩

theorem marks_eq_append_cons {start : Nat} {links : List (JointToken × Operand literal)}
    {before behind : List (Nat × Token)} {c : Nat × Token}
    (h : marks start links = before ++ c :: behind) :
    ∃ left link right, links = left ++ link :: right ∧
      c = (start + (linkTokens left).length, link.1.token) ∧
      before = marks start left ∧ ∃ start', behind = marks start' right := by
  induction links generalizing start before with
  | nil => simp [marks] at h
  | cons link links ih =>
    cases before with
    | nil =>
      obtain ⟨rfl, rfl⟩ := List.cons.inj h
      exact ⟨[], link, links, rfl, rfl, rfl, _, rfl⟩
    | cons b before =>
      obtain ⟨rfl, htail⟩ := List.cons.inj h
      obtain ⟨left, link', right, rfl, rfl, rfl, hbehind⟩ := ih htail
      refine ⟨link :: left, link', right, rfl, ?_, rfl, hbehind⟩
      simp [linkTokens]
      omega

theorem candidates_linkTokens {t : Token} (start : Nat) (ht : t.endsOperand = true)
    (links : List (JointToken × Operand literal)) :
    candidates (some t) 0 start (linkTokens links) = marks start links := by
  induction links generalizing t start with
  | nil => rfl
  | cons link links ih =>
    have hj := Token.isPlain_of_isOperator link.1.isOperator
    obtain ⟨last, hlast, hends⟩ := link.2.endsOperand
    have hdepth : depthAfter 0 link.2.tokens = 0 := depthAfter_eq link.2.nested
    have hrest : candidates (some link.1.token) 0 (start + 1) (link.2.tokens ++ linkTokens links) =
        marks (start + 1 + link.2.tokens.length) links := by
      rw [candidates_append, hlast, hdepth, Option.some_or, ih _ hends, link.2.candidates_eq_nil]
      · rfl
      · exact Token.not_endsOperand_of_isOperator link.1.isOperator
    have hposition : start + (link.1.token :: link.2.tokens).length =
        start + 1 + link.2.tokens.length := by
      rw [List.length_cons]
      omega
    show candidates (some t) 0 start (link.1.token :: (link.2.tokens ++ linkTokens links)) = _
    rw [candidates, if_neg (by simp [hj.1]), if_neg (by simp [hj.2]),
      if_pos (by simp [link.1.isOperator, ht]), hrest, marks, hposition]

/-- The operators that a chain can be cut at are its infix operators. -/
theorem candidates_chain (c : Chain literal) :
    candidates none 0 0 c.tokens = marks c.head.tokens.length c.links := by
  obtain ⟨last, hlast, hends⟩ := c.head.endsOperand
  have hdepth : depthAfter 0 c.head.tokens = 0 := depthAfter_eq c.head.nested
  rw [tokens, candidates_append, hlast, hdepth, Option.some_or, candidates_linkTokens _ hends,
    c.head.candidates_eq_nil 0 rfl, Nat.zero_add]
  rfl

/-! ### Cutting a chain -/

/-- Which infix operator a chain is cut at, and the chains on its sides. -/
theorem exists_split (c : Chain literal) (h : c.links ≠ []) :
    ∃ left link right, c.links = left ++ link :: right ∧
      splitPoint c.tokens = some ((Chain.mk c.head left).tokens.length, link.1.token) ∧
      LoosestAt (left.map toLink) link.1.joint (right.map toLink) := by
  obtain ⟨first, others, hmarks⟩ := List.exists_cons_of_ne_nil
    (l := marks c.head.tokens.length c.links) (by
      intro hnil
      cases hlinks : c.links with
      | nil => exact h hlinks
      | cons => rw [hlinks] at hnil; cases hnil)
  have hsplit : splitPoint c.tokens = some (others.foldl looser first) := by
    rw [splitPoint, candidates_chain, hmarks]
  obtain ⟨before, behind, hall, hbefore, hbehind⟩ := foldl_looser_spec first others
  generalize others.foldl looser first = cut at hsplit hall hbefore hbehind
  obtain ⟨left, link, right, hlinks, rfl, rfl, start, rfl⟩ :=
    marks_eq_append_cons (hmarks.trans hall)
  refine ⟨left, link, right, hlinks, ?_, ?_, ?_⟩
  · rw [hsplit, tokens, List.length_append]
  · intro l hl
    obtain ⟨x, hx, rfl⟩ := List.mem_map.1 hl
    obtain ⟨position, hmem⟩ := mem_marks c.head.tokens.length hx
    have := hbefore _ hmem
    simp only [JointToken.strength_eq, link.1.spells] at this
    exact this
  · intro l hl
    obtain ⟨y, hy, rfl⟩ := List.mem_map.1 hl
    obtain ⟨position, hmem⟩ := mem_marks start hy
    have := hbehind _ hmem
    simp only [JointToken.strength_eq, y.1.spells] at this
    exact this

/-- A chain with a leading prefix operator looser than all its infix operators is that
operator and the rest. -/
theorem shape_of_lead {p : PrefixToken} {rest : List Token}
    (h : ∀ cut, splitPoint (p.token :: rest) = some cut → p.token.strength < cut.2.strength) :
    Shape.of (p.token :: rest) = .unary p.token rest := by
  unfold Shape.of
  cases hsplit : splitPoint (p.token :: rest) with
  | none => simp [p.isOperator, hsplit]
  | some cut => simp [p.isOperator, hsplit, h cut hsplit]

theorem shape_of_splitPoint {span : List Token} {position : Nat} {op : Token}
    (h : splitPoint span = some (position, op))
    (hfirst : ∀ first ∈ span.head?, first.isOperator = true → op.strength ≤ first.strength) :
    Shape.of span = .binary (span.take position) op (span.drop (position + 1)) := by
  cases span with
  | nil => cases h
  | cons first rest =>
    unfold Shape.of
    simp only [h]
    split
    · next hlead =>
      simp only [Bool.and_eq_true, decide_eq_true_eq] at hlead
      exact absurd hlead.2 (Nat.not_lt.2 (hfirst first rfl hlead.1))
    · rfl

end Chain

theorem parseSpan_joint {span left right : List Token} {op : Token} {j : Joint}
    (h : Shape.of span = .binary left op right) (hop : op.text = j.spelling) :
    parseSpan literal span =
      (do return j.apply (← parseSpan literal left) (← parseSpan literal right)) := by
  cases j with
  | member => exact parseSpan_member h hop
  | binary b => exact parseSpan_binary h (hop ▸ BinaryOp.ofSymbol?_symbol b)

namespace Chain

theorem climb_eq (c : Chain literal) :
    c.climb = (climbed 0 (c.head.prefixes.map PrefixToken.op) c.head.atom.tree
      (c.links.map toLink), []) :=
  climb_eq_climbed_zero fun _ _ => Nat.zero_le _

/-- Reading a chain whose leading prefix operator is the loosest. -/
theorem parseSpan_lead {p : PrefixToken} {ps : List PrefixToken} {a : Atom literal}
    {links : List (JointToken × Operand literal)} {e : Expr}
    (hloose : ∀ link ∈ links, p.op.strength < link.1.joint.strength)
    (h : parseSpan literal (mk ⟨ps, a⟩ links).tokens = .ok e) :
    parseSpan literal (mk ⟨p :: ps, a⟩ links).tokens = .ok (.unary p.op e) := by
  have hshape : Shape.of (mk ⟨p :: ps, a⟩ links).tokens =
      .unary p.token (mk ⟨ps, a⟩ links).tokens := by
    refine shape_of_lead fun cut hcut => ?_
    by_cases hlinks : links = []
    · subst hlinks
      have hmem := splitPoint_mem hcut
      rw [show p.token :: _ = (mk ⟨p :: ps, a⟩ []).tokens from rfl, candidates_chain] at hmem
      cases hmem
    · obtain ⟨left, link, right, heq, hsplit, -⟩ := exists_split (mk ⟨p :: ps, a⟩ links) hlinks
      obtain rfl := Option.some.inj (hcut.symm.trans hsplit)
      rw [PrefixToken.strength_eq, JointToken.strength_eq]
      exact hloose link (by rw [show links = _ from heq]; simp)
  have hu : UnaryOp.ofSymbol? p.token.text = some p.op := p.spells ▸ UnaryOp.ofSymbol?_symbol p.op
  rw [parseSpan_unary hshape hu, h]
  rfl

/-- Reading a chain at an infix operator. -/
theorem parseSpan_split {c : Chain literal} {left right : List (JointToken × Operand literal)}
    {link : JointToken × Operand literal} {e e' : Expr} (hlinks : c.links = left ++ link :: right)
    (hsplit : splitPoint c.tokens = some ((mk c.head left).tokens.length, link.1.token))
    (hlead : ∀ p ∈ c.head.prefixes.head?, link.1.joint.strength ≤ p.op.strength)
    (hleft : parseSpan literal (mk c.head left).tokens = .ok e)
    (hright : parseSpan literal (mk link.2 right).tokens = .ok e') :
    parseSpan literal c.tokens = .ok (link.1.joint.apply e e') := by
  have htokens : c.tokens =
      (mk c.head left).tokens ++ link.1.token :: (mk link.2 right).tokens := by
    simp [tokens, hlinks, linkTokens]
  have hfirst : ∀ first ∈ c.tokens.head?, first.isOperator = true →
      link.1.token.strength ≤ first.strength := by
    intro first hfirst hop
    cases hps : c.head.prefixes with
    | nil =>
      obtain ⟨first', rest, hspan, hnot⟩ := c.head.atom.isAtom.first_not_isOperator
      simp [tokens, Operand.tokens, hps, hspan] at hfirst
      rw [← hfirst, hnot] at hop
      cases hop
    | cons p ps =>
      simp [tokens, Operand.tokens, hps] at hfirst
      rw [← hfirst, PrefixToken.strength_eq, JointToken.strength_eq]
      exact hlead p (by rw [hps]; rfl)
  have hshape := shape_of_splitPoint hsplit hfirst
  rw [parseSpan_joint hshape link.1.spells, htokens, List.take_left, ← List.drop_drop,
    List.drop_left, hleft]
  simp [hright]
  rfl

/-- No operator of a chain is looser than the one it is cut at. -/
theorem strength_le_of_loosestAt {left right : List (JointToken × Operand literal)}
    {link l : JointToken × Operand literal}
    (h : LoosestAt (left.map toLink) link.1.joint (right.map toLink))
    (hl : l ∈ left ++ link :: right) : link.1.joint.strength ≤ l.1.joint.strength := by
  rcases List.mem_append.1 hl with hl | hl
  · rcases h.1 _ (List.mem_map_of_mem hl) with hlt | ⟨heq, -⟩
    · exact Nat.le_of_lt hlt
    · exact Nat.le_of_eq heq
  · rcases List.mem_cons.1 hl with rfl | hl
    · exact Nat.le_refl _
    · rcases h.2 _ (List.mem_map_of_mem hl) with hlt | ⟨heq, -⟩
      · exact Nat.le_of_lt hlt
      · exact Nat.le_of_eq heq

theorem parseSpan_chain (c : Chain literal) : parseSpan literal c.tokens = .ok c.climb.1 := by
  induction hn : c.tokens.length using Nat.strongRecOn generalizing c with
  | ind n ih =>
    subst hn
    obtain ⟨⟨prefixes, atom⟩, links⟩ := c
    by_cases hlead : ∃ p ps, prefixes = p :: ps ∧
        ∀ link ∈ links, p.op.strength < link.1.joint.strength
    · obtain ⟨p, ps, rfl, hloose⟩ := hlead
      have hrest := ih _ (by simp [tokens, Operand.tokens]) (mk ⟨ps, atom⟩ links) rfl
      rw [parseSpan_lead hloose hrest, climb_eq, climb_eq]
      have hloose' : ∀ l ∈ links.map toLink, p.op.strength < l.joint.strength := by
        intro l hl
        obtain ⟨link, hlink, rfl⟩ := List.mem_map.1 hl
        exact hloose link hlink
      exact congrArg Except.ok (climbed_lead hloose').symm
    by_cases hlinks : links = []
    · subst hlinks
      cases prefixes with
      | nil =>
        obtain ⟨-, hparse⟩ := parseTokens_eq_ok_iff.1 atom.parses
        have htokens : (mk ⟨[], atom⟩ []).tokens = atom.span := by
          simp [tokens, Operand.tokens, linkTokens]
        rw [htokens, hparse, climb_eq]
        exact congrArg Except.ok (climbed_no_links 0 [] atom.tree).symm
      | cons p ps => exact absurd ⟨p, ps, rfl, List.forall_mem_nil _⟩ hlead
    · obtain ⟨left, link, right, rfl, hsplit, hloosest⟩ :=
        exists_split (mk ⟨prefixes, atom⟩ links) hlinks
      have hfirst : ∀ p ∈ prefixes.head?, link.1.joint.strength ≤ p.op.strength := by
        intro p hp
        by_contra hlt
        obtain ⟨ps, rfl⟩ := List.head?_eq_some_iff.1 hp
        refine hlead ⟨p, ps, rfl, fun l hl => ?_⟩
        exact Nat.lt_of_lt_of_le (Nat.not_le.1 hlt) (strength_le_of_loosestAt hloosest hl)
      have hleft := ih _ (by simp [tokens, linkTokens]) (mk ⟨prefixes, atom⟩ left) rfl
      have hright := ih _ (by simp [tokens, linkTokens]; omega) (mk link.2 right) rfl
      have hfirst' : ∀ u ∈ (prefixes.map PrefixToken.op).head?,
          link.1.joint.strength ≤ u.strength := by
        intro u hu
        rw [List.head?_map] at hu
        obtain ⟨p, hp, rfl⟩ := Option.map_eq_some_iff.1 hu
        exact hfirst p hp
      have htree : climbed 0 (prefixes.map PrefixToken.op) atom.tree
            (left.map toLink ++ toLink link :: right.map toLink) =
          link.1.joint.apply (climbed 0 (prefixes.map PrefixToken.op) atom.tree (left.map toLink))
            (climbed 0 (toLink link).prefixes (toLink link).tree (right.map toLink)) :=
        climbed_append_cons hloosest hfirst'
      rw [parseSpan_split rfl hsplit hfirst hleft hright, climb_eq, climb_eq, climb_eq,
        List.map_append, List.map_cons, htree]
      rfl

end Chain

theorem Operand.parseSpan_tokens (o : Operand literal) :
    parseSpan literal o.tokens = .ok o.tree := by
  have h := Chain.parseSpan_chain ⟨o, []⟩
  rw [Chain.climb_eq] at h
  simpa [Chain.tokens, Chain.linkTokens, climbed_no_links, tree] using h

namespace Chain

/-- **Cutting spans at their loosest operator reads a chain as climbing does**, to its end. -/
theorem parseTokens_chain (c : Chain literal) :
    parseTokens literal c.tokens = .ok c.climb.1 ∧ c.climb.2 = [] ∧
      ∀ band, c.head.prefixes = [] → (∀ link ∈ c.links, link.1.joint.strength = band) →
        c.climb.1 =
          if band = (Joint.binary .power).strength
          then rightGrouped c.head.atom.tree (c.links.map toLink)
          else leftGrouped c.head.atom.tree (c.links.map toLink) := by
  refine ⟨?_, ?_, ?_⟩
  · exact parseTokens_eq_ok_iff.2 ⟨c.nested, parseSpan_chain c⟩
  · rw [climb_eq]
  · intro band hhead hband
    have hlinks : ∀ l ∈ c.links.map toLink, l.joint.strength = band := by
      intro l hl
      obtain ⟨link, hlink, rfl⟩ := List.mem_map.1 hl
      exact hband link hlink
    rw [climb_eq, hhead, show (Joint.binary .power).strength = 10 by decide]
    split
    · next hpower => exact climbed_of_band_right (hpower ▸ hlinks)
    · next hpower => exact climbed_of_band_left hlinks hpower

/-- The chain `a^-b^c`. -/
def ofPowers : Chain Template.parse where
  head := ⟨[], .ofToken ⟨.word, "a", 0⟩ (.name "a") rfl (.inl rfl) rfl⟩
  links :=
    [(⟨⟨.operator, "^", 1⟩, .binary .power, rfl, rfl⟩,
      ⟨[⟨⟨.operator, "-", 2⟩, .negate, rfl, rfl⟩],
        .ofToken ⟨.word, "b", 3⟩ (.name "b") rfl (.inl rfl) rfl⟩),
     (⟨⟨.operator, "^", 4⟩, .binary .power, rfl, rfl⟩,
      ⟨[], .ofToken ⟨.word, "c", 5⟩ (.name "c") rfl (.inl rfl) rfl⟩)]

/-- Powers group to the right, under a prefix operator too. -/
theorem parseTokens_ofPowers :
    tokenize "a^-b^c" = .ok ofPowers.tokens ∧
      parseTokens Template.parse ofPowers.tokens =
        .ok (.binary .power (.name "a")
          (.unary .negate (.binary .power (.name "b") (.name "c")))) := by
  obtain ⟨hparse, -, hband⟩ := parseTokens_chain ofPowers
  refine ⟨by cbv, ?_⟩
  rw [hparse, hband 10 rfl (by decide)]
  rfl

end Chain

end Formulary
