import Mathlib.Data.List.Nodup
import Formulary.Proofs.Asking

/-! What a scope says it has, and what it answers.

`attributes` is a recursion of its own, beside those of the look-ups, and what an object of the
host lists is the host's own affair. `Scope.Binds` says
which names the layers of a scope and the tables under it bind, and `mem_attributes_iff` that
these are the names listed. A name that is not listed passes every layer and every table and
comes to the bottom, which does not know it either (`query_unlisted`).

One place could hold a name that nobody binds, the cache of a layer of clauses: a name that is
remembered there is answered before the bindings are looked at. So the caches have to hold bound
names only (`World.RemembersBound`). They do as long as a scope is in use (`Live.remembersBound`),
whatever is evaluated in it or around it in the meantime. -/
namespace Formulary

/-! ### Names that are bound -/

/-- The object, or one under it, has the name. Only an entry of a table may be written. -/
inductive Object.Has : Object → String → Mode → Prop where
  | coordinate {l : Location} {key : String} (h : key = "x" ∨ key = "y" ∨ key = "valid") :
      Has (.tile l) key .readOnly
  | field {fields : List (String × Document)} {key : String} {d : Document}
      (h : fields.lookup key = some d) : Has (.record fields) key .readOnly
  | entry {entries : List (String × Value)} {fallback : Object} {key : String} {v : Value}
      (h : entries.lookup key = some v) : Has (.layer entries fallback) key .readWrite
  | under {entries : List (String × Value)} {fallback : Object} {key : String} {mode : Mode}
      (h : Has fallback key mode) : Has (.layer entries fallback) key mode

/-- A layer of the scope, or the object under them, has the name. -/
inductive Scope.Binds : Scope → String → Mode → Prop where
  | object {o : Object} {key : String} {mode : Mode} (h : o.Has key mode) :
      Binds (.object o) key mode
  | element {bindings : List (String × Value)} {outer : Scope} {key : String} {v : Value}
      (h : bindings.lookup key = some v) : Binds (.elements bindings outer) key .readOnly
  | outsideElements {bindings : List (String × Value)} {outer : Scope} {key : String} {mode : Mode}
      (h : Binds outer key mode) : Binds (.elements bindings outer) key mode
  | definition {bindings : List (String × Run Value)} {outer : Scope} {key : String}
      {computation : Run Value} (h : bindings.lookup key = some computation) :
      Binds (.definitions bindings outer) key .readOnly
  | outsideDefinitions {bindings : List (String × Run Value)} {outer : Scope} {key : String}
      {mode : Mode} (h : Binds outer key mode) : Binds (.definitions bindings outer) key mode
  | clause {slot : Nat} {bindings : List (String × Run Value)} {outer : Scope} {key : String}
      {clause : Run Value} (h : bindings.lookup key = some clause) :
      Binds (.clauses slot bindings outer) key .readOnly
  | outsideClauses {slot : Nat} {bindings : List (String × Run Value)} {outer : Scope}
      {key : String} {mode : Mode} (h : Binds outer key mode) :
      Binds (.clauses slot bindings outer) key mode

theorem Keyed.mem_keys_iff {α : Type} {key : String} {table : List (String × α)} :
    key ∈ keys table ↔ ∃ a, table.lookup key = some a := by
  rw [← isSome_lookup_iff, Option.isSome_iff_exists]

theorem Keyed.lookup_eq_none_iff {α : Type} {key : String} {table : List (String × α)} :
    table.lookup key = none ↔ key ∉ keys table := by
  rw [← isSome_lookup_iff, Option.not_isSome_iff_eq_none]

/-- The attributes of a table, all of one mode. -/
theorem mem_map_attribute {α : Type} {a : Attribute} {mode : Mode} {table : List (String × α)} :
    (a ∈ (Keyed.keys table).map fun key => (⟨key, mode⟩ : Attribute)) ↔
      a.mode = mode ∧ ∃ x, table.lookup a.name = some x := by
  rw [← Keyed.mem_keys_iff, List.mem_map]
  constructor
  · rintro ⟨key, hkey, rfl⟩
    exact ⟨rfl, hkey⟩
  · rintro ⟨rfl, hkey⟩
    exact ⟨a.name, hkey, rfl⟩

theorem Object.Has.mem_attributes {o : Object} {key : String} {mode : Mode} (h : o.Has key mode)
    (w : World) : ⟨key, mode⟩ ∈ o.attributes w := by
  induction h with
  | coordinate h => rcases h with rfl | rfl | rfl <;> simp [Object.attributes]
  | field h => exact mem_map_attribute.2 ⟨rfl, _, h⟩
  | entry h => exact List.mem_append_right _ (mem_map_attribute.2 ⟨rfl, _, h⟩)
  | under _ ih => exact List.mem_append_left _ ih

theorem Object.has_of_mem_attributes (o : Object) {key : String} {mode : Mode} {w : World}
    (hbottom : ∀ handle, o.bottom ≠ .host handle) (h : ⟨key, mode⟩ ∈ o.attributes w) :
    o.Has key mode := by
  cases o with
  | nothing => cases h
  | host handle => exact absurd rfl (hbottom handle)
  | tile l =>
    simp only [Object.attributes, List.mem_cons, List.not_mem_nil, or_false,
      Attribute.mk.injEq] at h
    obtain ⟨rfl, rfl⟩ | ⟨rfl, rfl⟩ | ⟨rfl, rfl⟩ := h <;> exact .coordinate (by simp)
  | record fields =>
    obtain ⟨hmode, d, hd⟩ := mem_map_attribute.1 h
    cases hmode
    exact .field hd
  | layer entries fallback =>
    obtain hunder | hentry := List.mem_append.1 h
    · exact .under (fallback.has_of_mem_attributes hbottom hunder)
    · obtain ⟨hmode, v, hv⟩ := mem_map_attribute.1 hentry
      cases hmode
      exact .entry hv

namespace Scope

theorem mem_bindings_attribute {α : Type} {a : Attribute} {bindings : List (String × α)} :
    (a ∈ bindings.map fun b => (⟨b.1, .readOnly⟩ : Attribute)) ↔
      a.mode = .readOnly ∧ ∃ x, bindings.lookup a.name = some x := by
  rw [← mem_map_attribute, Keyed.keys, List.map_map]
  rfl

theorem Binds.mem_attributes {s : Scope} {key : String} {mode : Mode} (h : s.Binds key mode)
    (w : World) : ⟨key, mode⟩ ∈ s.attributes w := by
  induction h with
  | object h => exact h.mem_attributes w
  | element h | definition h | clause h =>
    exact List.mem_append_left _ (mem_bindings_attribute.2 ⟨rfl, _, h⟩)
  | outsideElements _ ih | outsideDefinitions _ ih | outsideClauses _ ih =>
    exact List.mem_append_right _ ih

theorem binds_of_mem_attributes {s : Scope} {key : String} {mode : Mode} {w : World}
    (hbottom : ∀ handle, s.bottom ≠ .host handle) (h : ⟨key, mode⟩ ∈ s.attributes w) :
    s.Binds key mode := by
  induction s with
  | object o => exact .object (o.has_of_mem_attributes hbottom h)
  | elements bindings outer ih =>
    obtain hown | houter := List.mem_append.1 h
    · obtain ⟨hmode, v, hv⟩ := mem_bindings_attribute.1 hown
      cases hmode
      exact .element hv
    · exact .outsideElements (ih hbottom houter)
  | definitions bindings outer ih =>
    obtain hown | houter := List.mem_append.1 h
    · obtain ⟨hmode, r, hr⟩ := mem_bindings_attribute.1 hown
      cases hmode
      exact .definition hr
    · exact .outsideDefinitions (ih hbottom houter)
  | clauses slot bindings outer ih =>
    obtain hown | houter := List.mem_append.1 h
    · obtain ⟨hmode, r, hr⟩ := mem_bindings_attribute.1 hown
      cases hmode
      exact .clause hr
    · exact .outsideClauses (ih hbottom houter)

/-- With no object of the host below, what is listed is bound, and the other way around. -/
theorem mem_attributes_iff (s : Scope) (w : World) (hbottom : ∀ handle, s.bottom ≠ .host handle)
    (a : Attribute) : a ∈ s.attributes w ↔ s.Binds a.name a.mode :=
  ⟨binds_of_mem_attributes hbottom, fun h => h.mem_attributes w⟩

end Scope

/-! ### Caches of bound names -/

/-- The layers of clauses in a scope: where each remembers, and the names that it binds. -/
def Scope.layers : Scope → List (Nat × List String)
  | object _ => []
  | elements _ outer | definitions _ outer => outer.layers
  | clauses slot bindings outer => (slot, Keyed.keys bindings) :: outer.layers

/-- Each layer of the scope has its cache, and remembers values of names that it binds only. -/
def World.RemembersBound (w : World) (s : Scope) : Prop :=
  ∀ l ∈ s.layers, ∃ entries, w.caches[l.1]? = some entries ∧
    ∀ n ∈ Keyed.keys entries, n ∈ l.2

namespace World.RemembersBound

variable {s : Scope} {w w' : World}

/-- Only the caches of its layers matter. -/
theorem congr (h : w.RemembersBound s)
    (hsame : ∀ l ∈ s.layers, w'.caches[l.1]? = w.caches[l.1]?) : w'.RemembersBound s := by
  intro l hl
  rw [hsame l hl]
  exact h l hl

theorem lt_size (h : w.RemembersBound s) {l : Nat × List String} (hl : l ∈ s.layers) :
    l.1 < w.caches.size := by
  obtain ⟨entries, hentries, -⟩ := h l hl
  exact (Array.getElem?_eq_some_iff.1 hentries).1

theorem size_not_mem (h : w.RemembersBound s) : w.caches.size ∉ s.layers.map Prod.fst := by
  intro hmem
  obtain ⟨l, hl, hsize⟩ := List.mem_map.1 hmem
  exact Nat.ne_of_lt (h.lt_size hl) hsize

theorem push (h : w.RemembersBound s) :
    World.RemembersBound { w with caches := w.caches.push [] } s := by
  refine h.congr fun l hl => ?_
  have hlt := h.lt_size hl
  show (w.caches.push [])[l.1]? = _
  rw [Array.getElem?_push, if_neg (Nat.ne_of_lt hlt)]

/-- A value is remembered elsewhere. -/
theorem remember_elsewhere (h : w.RemembersBound s) {slot : Nat}
    (hslot : slot ∉ s.layers.map Prod.fst) (n : String) (v : Value) :
    World.RemembersBound { w with caches := w.caches.modify slot ((n, v) :: ·) } s := by
  refine h.congr fun l hl => ?_
  show (w.caches.modify slot _)[l.1]? = _
  rw [Array.getElem?_modify, if_neg]
  rintro rfl
  exact hslot (List.mem_map_of_mem hl)

/-- A layer remembers a value of a name that it binds. -/
theorem remember (h : w.RemembersBound s) (hslots : (s.layers.map Prod.fst).Nodup)
    {l : Nat × List String} (hl : l ∈ s.layers) {n : String} (hn : n ∈ l.2) (v : Value) :
    World.RemembersBound { w with caches := w.caches.modify l.1 ((n, v) :: ·) } s := by
  intro l' hl'
  obtain ⟨entries, hentries, hbound⟩ := h l' hl'
  by_cases hsame : l.1 = l'.1
  · obtain rfl := List.inj_on_of_nodup_map hslots hl hl' hsame
    refine ⟨(n, v) :: entries, by simp [Array.getElem?_modify, hentries], fun m hm => ?_⟩
    rcases List.mem_cons.1 hm with rfl | hm
    · exact hn
    · exact hbound m hm
  · refine ⟨entries, ?_, hbound⟩
    show (w.caches.modify l.1 _)[l'.1]? = some entries
    rwa [Array.getElem?_modify, if_neg hsame]

/-- A layer remembers nothing for a name that it does not bind. -/
theorem lookup_eq_none {slot : Nat} {bindings : List (String × Run Value)} {outer : Scope}
    {n : String} (h : w.RemembersBound (.clauses slot bindings outer))
    (hn : n ∉ Keyed.keys bindings) : (w.caches.getD slot []).lookup n = none := by
  obtain ⟨entries, hentries, hbound⟩ := h _ List.mem_cons_self
  rw [getD_of_getElem? hentries, Keyed.lookup_eq_none_iff]
  exact fun hmem => hn (hbound n hmem)

theorem outer {slot : Nat} {bindings : List (String × Run Value)} {outer : Scope}
    (h : w.RemembersBound (.clauses slot bindings outer)) : w.RemembersBound outer :=
  fun l hl => h l (List.mem_cons_of_mem _ hl)

end World.RemembersBound

/-! ### Names that are not listed -/

/-- No attribute is listed under the name. -/
def Unlisted (attributes : List Attribute) (key : String) : Prop :=
  ∀ a ∈ attributes, a.name ≠ key

section
variable {attributes attributes' : List Attribute} {key : String}

theorem unlisted_append :
    Unlisted (attributes ++ attributes') key ↔
      Unlisted attributes key ∧ Unlisted attributes' key :=
  List.forall_mem_append

theorem unlisted_map {α : Type} {mode : Mode} {table : List (String × α)} :
    Unlisted ((Keyed.keys table).map fun key => ⟨key, mode⟩) key ↔ table.lookup key = none := by
  rw [Keyed.lookup_eq_none_iff, Unlisted, List.forall_mem_map]
  exact ⟨fun h hkey => h key hkey rfl, fun h k hk heq => h (heq ▸ hk)⟩

theorem unlisted_bindings {α : Type} {bindings : List (String × α)} :
    Unlisted (bindings.map fun b => ⟨b.1, .readOnly⟩) key ↔ bindings.lookup key = none := by
  rw [← unlisted_map, Keyed.keys, List.map_map]
  rfl

theorem Location.get_unlisted {l : Location} {w : World}
    (h : Unlisted ((Object.tile l).attributes w) key) :
    l.get key = .missing := by
  unfold Location.get
  split
  · exact absurd rfl (h ⟨"x", .readOnly⟩ (by simp [Object.attributes]))
  · exact absurd rfl (h ⟨"y", .readOnly⟩ (by simp [Object.attributes]))
  · exact absurd rfl (h ⟨"valid", .readOnly⟩ (by simp [Object.attributes]))
  · rfl

theorem Object.query_unlisted (o : Object) {w : World}
    (hbottom : ∀ handle, o.bottom ≠ .host handle) (h : Unlisted (o.attributes w) key) :
    o.query key = pure .missing := by
  cases o with
  | nothing => rfl
  | tile l =>
    show (pure (l.get key) : Run Value) = _
    rw [Location.get_unlisted h]
  | record fields =>
    show (liftM ((record fields).get key) : Run Value) = _
    rw [Object.get, unlisted_map.1 h]
    rfl
  | layer entries fallback =>
    obtain ⟨hunder, hentries⟩ := unlisted_append.1 h
    rw [Object.query, unlisted_map.1 hentries]
    exact fallback.query_unlisted hbottom hunder
  | host handle => exact absurd rfl (hbottom handle)

/-- A name that is not listed is looked up in all layers, and missed. -/
theorem Scope.query_unlisted (s : Scope) {w : World} (hbottom : ∀ handle, s.bottom ≠ .host handle)
    (hw : w.RemembersBound s) (h : Unlisted (s.attributes w) key) :
    (s.query key).run.run w = (.ok .missing, w) := by
  induction s with
  | object o =>
    rw [Scope.query, o.query_unlisted hbottom h]
    rfl
  | elements bindings outer ih | definitions bindings outer ih =>
    obtain ⟨hown, houter⟩ := unlisted_append.1 h
    rw [Scope.query, unlisted_bindings.1 hown]
    exact ih hbottom hw houter
  | clauses slot bindings outer ih =>
    obtain ⟨hown, houter⟩ := unlisted_append.1 h
    have hunbound := unlisted_bindings.1 hown
    rw [query_of_unbound (hw.lookup_eq_none (Keyed.lookup_eq_none_iff.1 hunbound)) hunbound]
    exact ih hbottom hw.outer houter

theorem Scope.get_unlisted (s : Scope) {w : World} (hbottom : ∀ handle, s.bottom ≠ .host handle)
    (hw : w.RemembersBound s) (h : Unlisted (s.attributes w) key) :
    (s.get key).run w = (.missing, w) := by
  obtain hget | ⟨handle, hhost, -⟩ := s.get_eq_or_host key
  · rw [hget, Run.run_orMissing, s.query_unlisted hbottom hw h, valueOrMissing]
  · exact absurd hhost (hbottom handle)

end

/-! ### Scopes in use -/

namespace Scope

/-- A scope and the scopes around it. -/
def chain : Scope → List Scope
  | object o => [object o]
  | elements bindings outer => elements bindings outer :: outer.chain
  | definitions bindings outer => definitions bindings outer :: outer.chain
  | clauses slot bindings outer => clauses slot bindings outer :: outer.chain

/-- The scopes that evaluation builds, each layer of clauses with a cache of its own. -/
inductive Stacked : Scope → Prop where
  | object (o : Object) : Stacked (.object o)
  | elements {bindings : List (String × Value)} {outer : Scope} (h : Stacked outer) :
      Stacked (.elements bindings outer)
  | clauses {slot : Nat} {bindings : List (String × Expr)} {outer : Scope} (h : Stacked outer)
      (hslot : slot ∉ outer.layers.map Prod.fst) : Stacked (layer slot bindings outer)

namespace Stacked

variable {s t : Scope}

theorem nodup_slots (h : s.Stacked) : (s.layers.map Prod.fst).Nodup := by
  induction h with
  | object o => exact List.nodup_nil
  | elements _ ih => exact ih
  | clauses _ hslot ih => exact List.nodup_cons.2 ⟨hslot, ih⟩

/-- What is around a scope has some of its layers. -/
theorem around (h : s.Stacked) (ht : t ∈ s.chain) : t.Stacked ∧ t.layers <:+ s.layers := by
  induction h with
  | object o =>
    obtain rfl := List.mem_singleton.1 ht
    exact ⟨.object o, List.suffix_refl _⟩
  | elements h ih =>
    obtain rfl | ht := List.mem_cons.1 ht
    · exact ⟨.elements h, List.suffix_refl _⟩
    · exact ih ht
  | clauses h hslot ih =>
    obtain rfl | ht := List.mem_cons.1 ht
    · exact ⟨.clauses h hslot, List.suffix_refl _⟩
    · obtain ⟨hstacked, hsuffix⟩ := ih ht
      exact ⟨hstacked, hsuffix.trans (List.suffix_cons _ _)⟩

end Stacked

end Scope

theorem keys_clauseRuns (bindings : List (String × Expr)) (outer : Scope) :
    Keyed.keys (Expr.clauseRuns bindings outer) = Keyed.keys bindings := by
  rw [Expr.clauseRuns_eq_map, Keyed.keys, List.map_map]
  rfl

namespace Contract

/-- The layers of the scope remember bound names only. -/
def boundOnly (s : Scope) : Contract where
  world w := w.RemembersBound s
  slot k := k ∉ s.layers.map Prod.fst
  error _ w := w.RemembersBound s

theorem closed_boundOnly (s : Scope) : (boundOnly s).Closed .all := by
  refine .of_caches (fun _ _ => id) (fun w w' hsame hw => ?_) (fun w hw => ⟨?_, ?_⟩) ?_
  · exact World.RemembersBound.congr hw fun l _ => by rw [hsame]
  · exact World.RemembersBound.size_not_mem hw
  · exact World.RemembersBound.push hw
  · intro w slot key v hslot hw
    exact World.RemembersBound.remember_elsewhere hw hslot key v

/-- A scope that has some of the layers keeps to it: a layer remembers the value of a clause
under the name of that clause. -/
theorem answers_boundOnly {s t : Scope} (hs : s.Stacked) (ht : t.Stacked)
    (hlayers : t.layers <:+ s.layers) : (boundOnly s).Answers .all t := by
  induction ht with
  | object o => exact (closed_boundOnly s).answers_object Means.closed_all trivial
  | elements _ ih => exact answers_elements (fun _ _ => trivial) (ih hlayers)
  | @clauses slot bindings outer _ _ ih =>
    have hl : (slot, Keyed.keys (Expr.clauseRuns bindings outer)) ∈ s.layers :=
      hlayers.mem List.mem_cons_self
    refine answers_layer (closed_boundOnly s) (ih ((List.suffix_cons _ _).trans hlayers)) ?_
    intro n e v w w' hb _ _ hw'
    have hbound : n ∈ Keyed.keys (Expr.clauseRuns bindings outer) := by
      rw [keys_clauseRuns, Keyed.mem_keys_iff]
      exact ⟨e, hb⟩
    exact World.RemembersBound.remember hw' hs.nodup_slots hl hbound v

end Contract

/-- A scope in use, and the world at that time. It is built layer by layer. In the meantime
any computation may run in it or in a scope around it, and anything may happen to what its
layers do not remember. -/
inductive Live : Scope → World → Prop where
  | object (o : Object) (w : World) : Live (.object o) w
  | elements {outer : Scope} {w : World} (bindings : List (String × Value)) (h : Live outer w) :
      Live (.elements bindings outer) w
  | clauses {outer : Scope} {w : World} (bindings : List (String × Expr)) (h : Live outer w) :
      Live ((Scope.openClauses (Expr.clauseRuns bindings outer) outer).run w).1
        ((Scope.openClauses (Expr.clauseRuns bindings outer) outer).run w).2
  | computed {s t : Scope} {w : World} {α : Type} {m : Scope → Run α} {post : α → Prop}
      (h : Live s w) (ht : t ∈ s.chain) (hm : Stepwise .all m post) :
      Live s ((m t).run.run w).2
  | elsewhere {s : Scope} {w w' : World} (h : Live s w)
      (hsame : ∀ l ∈ s.layers, w'.caches[l.1]? = w.caches[l.1]?) : Live s w'

theorem Live.remembersBound {s : Scope} {w : World} (h : Live s w) :
    s.Stacked ∧ w.RemembersBound s := by
  induction h with
  | object o w => exact ⟨.object o, List.forall_mem_nil _⟩
  | elements bindings h ih => exact ⟨.elements ih.1, ih.2⟩
  | @clauses outer w bindings h ih =>
    obtain ⟨hstacked, hw⟩ := ih
    refine ⟨.clauses hstacked hw.size_not_mem, List.forall_mem_cons.2 ⟨?_, hw.push⟩⟩
    exact ⟨[], Array.getElem?_push_size, List.forall_mem_nil _⟩
  | computed h ht hm ih =>
    obtain ⟨hstacked, hw⟩ := ih
    obtain ⟨htstacked, hlayers⟩ := hstacked.around ht
    have hkeeps := hm.keeps Means.closed_all (Contract.closed_boundOnly _) _
      (Contract.answers_boundOnly hstacked htstacked hlayers)
    exact ⟨hstacked, hkeeps.world_after (fun _ _ => id) hw⟩
  | elsewhere h hsame ih => exact ⟨ih.1, ih.2.congr hsame⟩

/-! ### Other clauses -/

/-- The same scope, but for what its clauses and definitions compute. -/
inductive Scope.SameNames : Scope → Scope → Prop where
  | object (o : Object) : SameNames (.object o) (.object o)
  | elements {outer outer' : Scope} (bindings : List (String × Value))
      (h : SameNames outer outer') :
      SameNames (.elements bindings outer) (.elements bindings outer')
  | definitions {bindings bindings' : List (String × Run Value)} {outer outer' : Scope}
      (hnames : bindings'.map Prod.fst = bindings.map Prod.fst) (h : SameNames outer outer') :
      SameNames (.definitions bindings outer) (.definitions bindings' outer')
  | clauses {slot : Nat} {bindings bindings' : List (String × Run Value)} {outer outer' : Scope}
      (hnames : bindings'.map Prod.fst = bindings.map Prod.fst) (h : SameNames outer outer') :
      SameNames (.clauses slot bindings outer) (.clauses slot bindings' outer')

namespace Scope.SameNames

variable {s s' : Scope}

theorem bottom_eq (h : SameNames s s') : s'.bottom = s.bottom := by
  induction h with
  | object => rfl
  | elements _ _ ih | definitions _ _ ih | clauses _ _ ih => exact ih

theorem layers_eq (h : SameNames s s') : s'.layers = s.layers := by
  induction h with
  | object => rfl
  | elements _ _ ih | definitions _ _ ih => exact ih
  | clauses hnames _ ih => rw [layers, layers, ih, Keyed.keys, Keyed.keys, hnames]

theorem attributes_eq (h : SameNames s s') (w : World) : s'.attributes w = s.attributes w := by
  induction h with
  | object => rfl
  | elements bindings _ ih => rw [attributes, attributes, ih]
  | definitions hnames _ ih | clauses hnames _ ih =>
    have hown := congrArg (List.map fun n => (⟨n, .readOnly⟩ : Attribute)) hnames
    rw [List.map_map, List.map_map] at hown
    rw [attributes, attributes, ih]
    exact congrArg (· ++ _) hown

end Scope.SameNames

/-- **The list of attributes is complete.** In a scope in use, with no object of the host at its
bottom, a name that is not listed has the missing value, however it is asked for, and nothing
happens. No clause is run for that: the answer is the same whatever the clauses are. And what
is listed is bound by a layer, a table, a record or a tile, to be read and written if by a
table and to be read otherwise. -/
theorem Scope.attributes_complete {s : Scope} {w : World} (hlive : Live s w)
    (hbottom : ∀ handle, s.bottom ≠ .host handle) :
    (∀ key, (∀ a ∈ s.attributes w, a.name ≠ key) →
      (s.get key).run w = (.integer 0, w) ∧ (s.query key).run.run w = (.ok (.integer 0), w) ∧
      ∀ s', s.SameNames s' →
        (s'.get key).run w = (.integer 0, w) ∧
        (s'.query key).run.run w = (.ok (.integer 0), w)) ∧
    ∀ a, a ∈ s.attributes w ↔ s.Binds a.name a.mode := by
  obtain ⟨-, hw⟩ := hlive.remembersBound
  refine ⟨fun key hkey => ?_, s.mem_attributes_iff w hbottom⟩
  refine ⟨s.get_unlisted hbottom hw hkey, s.query_unlisted hbottom hw hkey, fun s' hs' => ?_⟩
  have hbottom' : ∀ handle, s'.bottom ≠ .host handle := hs'.bottom_eq ▸ hbottom
  have hw' : w.RemembersBound s' := by
    rw [World.RemembersBound, hs'.layers_eq]
    exact hw
  have hkey' : Unlisted (s'.attributes w) key := hs'.attributes_eq w ▸ hkey
  exact ⟨s'.get_unlisted hbottom' hw' hkey', s'.query_unlisted hbottom' hw' hkey'⟩

/-- A layer of clauses that remembers the value of its clause, over a layer of elements and a
table above a record. -/
theorem Scope.attributes_complete_after_query :
    let outer : Scope := .elements [("value", .integer 5)]
      (.object (.layer [("gold", .integer 2)] (.record [("title", .text "knight")])))
    let opened := (Scope.openClauses (Expr.clauseRuns [("x", .name "gold")] outer) outer).run
      (World.fresh (.ofWords fun _ => 0) fun _ _ => .ok .missing)
    let now := ((opened.1.query "x").run.run opened.2).2
    now.caches[0]? = some [("x", .integer 2)] ∧
      (∀ handle, opened.1.bottom ≠ .host handle) ∧
      (opened.1.get "silver").run now = (.integer 0, now) ∧
      (opened.1.query "silver").run.run now = (.ok (.integer 0), now) ∧
      opened.1.Binds "gold" .readWrite ∧ opened.1.Binds "title" .readOnly ∧
      ¬ opened.1.Binds "value" .readWrite := by
  intro outer opened now
  have hcached : now.caches[0]? = some [("x", .integer 2)] := rfl
  have hopened : Live opened.1 opened.2 := .clauses _ (.elements _ (.object _ _))
  have hlive : Live opened.1 now :=
    .computed hopened List.mem_cons_self (Expr.stepwise (.name "x"))
  have hbottom : ∀ handle, opened.1.bottom ≠ .host handle := by
    intro handle h
    cases h
  have hnames : opened.1.attributes now =
      [⟨"x", .readOnly⟩, ⟨"value", .readOnly⟩, ⟨"title", .readOnly⟩, ⟨"gold", .readWrite⟩] := rfl
  obtain ⟨hunlisted, hbound⟩ := Scope.attributes_complete hlive hbottom
  obtain ⟨hget, hquery, -⟩ := hunlisted "silver" (by rw [hnames]; decide)
  refine ⟨hcached, hbottom, hget, hquery, (hbound ⟨"gold", .readWrite⟩).1 ?_,
    (hbound ⟨"title", .readOnly⟩).1 ?_, fun h => ?_⟩
  · rw [hnames]
    decide
  · rw [hnames]
    decide
  · have hmem := (hbound ⟨"value", .readWrite⟩).2 h
    rw [hnames] at hmem
    exact absurd hmem (by decide)

end Formulary
