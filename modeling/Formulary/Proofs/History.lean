import Mathlib.Data.List.DropRight
import Formulary.Environment
import Formulary.Evaluation.Dice

/-! An environment is the history of its writes.

Changes write to the top layer or put a new one on it (`Change`). However many layers they
leave, a look-up finds the last value that was written to the key, and what the first
environment says where none was. Only the top layer shows in the number of keys and at the
end of the attributes: it has what was written since the last new layer. `Follows` is what
one change after the other preserves (`Follows.step`), and `changes_follow` what a whole
history does. -/
namespace Formulary.Environment

/-- A change to an environment. -/
inductive Change where
  /-- Write an attribute, as that of any object. -/
  | set (key : String) (v : Value)
  /-- Write an entry of one's own. -/
  | insert (key : String) (v : Value)
  /-- Put a new layer over all there is. -/
  | layer

namespace Change

def apply (w : World) (env : Environment) : Change → Except EvalError Environment
  | set key v => env.set w key v
  | insert key v => .ok (env.insert key v)
  | layer => .ok env.extend

/-- The value that a change writes to a key. -/
def written (key : String) : Change → Option Value
  | set k v | insert k v => if k = key then some v else none
  | layer => none

def isWrite : Change → Bool
  | set _ _ | insert _ _ => true
  | layer => false

end Change

/-- The environment after some changes. -/
def change (w : World) (env : Environment) (changes : List Change) :
    Except EvalError Environment :=
  changes.foldlM (Change.apply w) env

/-- The last value written to a key, in whatever layer. -/
def lastWritten (key : String) (changes : List Change) : Option Value :=
  (changes.filterMap (Change.written key)).getLast?

/-- The changes up to the last new layer, and those since. -/
def untilLayer (changes : List Change) : List Change :=
  changes.rdropWhile Change.isWrite

@[inherit_doc untilLayer]
def sinceLayer (changes : List Change) : List Change :=
  changes.rtakeWhile Change.isWrite

variable {w : World}

/-! ### One change -/

/-- What a change leaves: a write goes to the top layer, whichever way it is asked for. -/
theorem apply_cases {env env' : Environment} {c : Change} (h : c.apply w env = .ok env') :
    (∃ key v, c.isWrite = true ∧ (∀ k, c.written k = if k = key then some v else none) ∧
      env' = env.insert key v) ∨
    (c = .layer ∧ env' = env.extend) := by
  cases c with
  | set key v | insert key v =>
    refine .inl ⟨key, v, rfl, fun k => ?_, (Except.ok.inj h).symm⟩
    simp [Change.written, eq_comm]
  | layer => exact .inr ⟨rfl, (Except.ok.inj h).symm⟩

theorem exists_apply (w : World) (env : Environment) (c : Change) :
    ∃ env', c.apply w env = .ok env' := by
  cases c with
  | set key v => exact ⟨_, env.set_eq w key v⟩
  | insert key v | layer => exact ⟨_, rfl⟩

/-! ### A history -/

theorem lastWritten_concat (key : String) (changes : List Change) (c : Change) :
    lastWritten key (changes ++ [c]) = (c.written key).or (lastWritten key changes) := by
  rw [lastWritten, List.filterMap_append]
  cases h : c.written key with
  | none => simp [lastWritten, h]
  | some v => simp [h]

theorem change_concat (env : Environment) (changes : List Change) (c : Change) :
    env.change w (changes ++ [c]) = env.change w changes >>= fun mid => c.apply w mid := by
  simp only [change, List.foldlM_append, List.foldlM_cons, List.foldlM_nil, bind_pure]

/-- What an environment owes to its history. -/
structure Follows (w : World) (env : Environment) (changes : List Change) (env' : Environment) :
    Prop where
  get : ∀ key, env'.get key = (lastWritten key changes).elim (env.get key) pure
  query : ∀ key, env'.query key = (lastWritten key changes).elim (env.query key) pure
  sorted : Keyed.Sorted env'.entries
  top : ∀ key, key ∈ Keyed.keys env'.entries ↔
    (lastWritten key (sinceLayer changes)).isSome ∨
      Change.layer ∉ changes ∧ key ∈ Keyed.keys env.entries
  below : ∃ mid, env.change w (untilLayer changes) = .ok mid ∧ env'.fallback = mid.fallback

theorem Follows.start {env : Environment} (h : Keyed.Sorted env.entries) :
    Follows w env [] env where
  get _ := rfl
  query _ := rfl
  sorted := h
  top key := by simp [sinceLayer, lastWritten]
  below := ⟨env, rfl, rfl⟩

theorem Follows.step {env mid env' : Environment} {changes : List Change} {c : Change}
    (h : Follows w env changes mid) (hrun : env.change w changes = .ok mid)
    (hc : c.apply w mid = .ok env') : Follows w env (changes ++ [c]) env' := by
  rcases apply_cases hc with ⟨key, v, hwrite, hwritten, rfl⟩ | ⟨rfl, rfl⟩
  · have hlayer : Change.layer ∈ changes ++ [c] ↔ Change.layer ∈ changes := by
      have hne : Change.layer ≠ c := by rintro rfl; cases hwrite
      simp [hne]
    constructor
    · intro k
      rw [get_insert, lastWritten_concat, hwritten, h.get]
      split <;> rfl
    · intro k
      rw [query_insert, lastWritten_concat, hwritten, h.query]
      split <;> rfl
    · exact Keyed.sorted_insert key v h.sorted
    · intro k
      rw [sinceLayer, List.rtakeWhile_concat_pos _ _ _ hwrite, lastWritten_concat, hwritten, hlayer,
        insert, Keyed.mem_keys_insert, h.top k]
      by_cases hk : k = key <;> simp [hk, sinceLayer]
    · rw [untilLayer, List.rdropWhile_concat_pos _ _ _ hwrite]
      exact h.below
  · constructor
    · intro k
      rw [lastWritten_concat]
      exact h.get k
    · intro k
      rw [lastWritten_concat]
      exact h.query k
    · exact List.Pairwise.nil
    · intro k
      rw [sinceLayer, List.rtakeWhile_concat_neg _ _ _ (by decide)]
      simp [extend, above, Keyed.keys, lastWritten]
    · rw [untilLayer, List.rdropWhile_concat_neg _ _ _ (by decide), change_concat, hrun]
      exact ⟨_, rfl, rfl⟩

theorem changes_follow {env : Environment} (h : Keyed.Sorted env.entries)
    (changes : List Change) :
    ∃ env', env.change w changes = .ok env' ∧ Follows w env changes env' := by
  induction changes using List.reverseRecOn with
  | nil => exact ⟨env, rfl, .start h⟩
  | append_singleton changes c ih =>
    obtain ⟨mid, hrun, hmid⟩ := ih
    obtain ⟨env', hc⟩ := exists_apply w mid c
    refine ⟨env', ?_, hmid.step hrun hc⟩
    rw [change_concat, hrun]
    exact hc

/-- **However many layers it has, an environment answers like one table.** Every history of
changes can be made. After it a look-up finds the last value written to the key in the whole
history, or else what the first environment answers; so asking in either way gives the same
where it did at first. The top layer has the keys written since the last new layer, and
those it had from the start if no layer was put on it. They are counted once each, and
listed in ascending order, to be read and written, after all that is listed by what lies
below, be it an object of the host. -/
theorem change_answers {env : Environment} (h : Keyed.Sorted env.entries)
    (w : World) (changes : List Change) :
    ∃ env', env.change w changes = .ok env' ∧
      (∀ key, env'.get key = (lastWritten key changes).elim (env.get key) pure) ∧
      (∀ key, env'.query key = (lastWritten key changes).elim (env.query key) pure) ∧
      (∀ key w, ((env.query key).run.run w).1 = .ok ((env.get key).run w).1 →
        ((env'.query key).run.run w).1 = .ok ((env'.get key).run w).1) ∧
      ∃ keys : List String, keys.Pairwise (· < ·) ∧
        (∀ key, key ∈ keys ↔ (lastWritten key (sinceLayer changes)).isSome ∨
          Change.layer ∉ changes ∧ env.contains key = true) ∧
        (∀ key, env'.contains key = true ↔ key ∈ keys) ∧
        env'.size = keys.length ∧ (env'.isEmpty = true ↔ env'.size = 0) ∧
        ∃ mid, env.change w (untilLayer changes) = .ok mid ∧
          ∀ w, env'.attributes w =
            mid.fallback.attributes w ++ keys.map fun key => ⟨key, .readWrite⟩ := by
  obtain ⟨env', hrun, hfollows⟩ := changes_follow (w := w) h changes
  obtain ⟨mid, hmid, hbelow⟩ := hfollows.below
  have hcontains (env : Environment) (key : String) :
      env.contains key = true ↔ key ∈ Keyed.keys env.entries := Keyed.isSome_lookup_iff
  refine ⟨env', hrun, hfollows.get, hfollows.query, fun key w hagree => ?_,
    Keyed.keys env'.entries, hfollows.sorted, fun key => ?_, hcontains env', ?_, ?_, mid, hmid, ?_⟩
  · rw [hfollows.get, hfollows.query]
    cases lastWritten key changes with
    | none => exact hagree
    | some v => rfl
  · rw [hcontains, hfollows.top]
  · rw [Keyed.keys, List.length_map]
    rfl
  · exact List.isEmpty_iff_length_eq_zero
  · intro w
    rw [← hbelow]
    rfl

/-- A write under a layer is found through it, but is no key of the layer. What the host lists
for its object comes first. -/
theorem change_answers_through_layer :
    let w : World := { World.fresh (.ofWords fun _ => 0) fun _ _ => .ok .missing with
      listed := fun _ _ => [⟨"base", .readOnly⟩] }
    let env : Environment := ⟨[("hp", .integer 1)], .host 0⟩
    let changes : List Change :=
      [.insert "mp" (.integer 2), .layer, .set "hp" (.integer 3), .insert "hp" (.integer 4)]
    Keyed.Sorted env.entries ∧ ∃ env', env.change w changes = .ok env' ∧
      env'.get "hp" = pure (.integer 4) ∧ env'.query "mp" = pure (.integer 2) ∧
      env'.query "x" = env.query "x" ∧ env'.contains "hp" = true ∧
      env'.contains "mp" = false ∧
      ∃ others, env'.attributes w = ⟨"base", .readOnly⟩ :: others := by
  intro w env changes
  have hsorted : Keyed.Sorted env.entries := List.pairwise_singleton _ _
  obtain ⟨env', hrun, hget, hquery, -, keys, -, hkeys, hcontains, -, -, mid, hmid, hlisted⟩ :=
    change_answers hsorted w changes
  refine ⟨hsorted, env', hrun, hget "hp", hquery "mp", hquery "x", ?_, ?_, ?_⟩
  · exact (hcontains _).2 ((hkeys _).2 (.inl rfl))
  · refine Bool.eq_false_iff.2 fun hmp => ?_
    rcases (hkeys _).1 ((hcontains _).1 hmp) with hwritten | ⟨hlayer, -⟩
    · exact nomatch hwritten
    · exact hlayer (.tail _ (.head _))
  · have hbelow : mid.fallback = .layer [("hp", .integer 1), ("mp", .integer 2)] (.host 0) := by
      obtain rfl := Except.ok.inj hmid
      rfl
    rw [hlisted, hbelow]
    exact ⟨_, rfl⟩

end Formulary.Environment
