import Formulary.Value.Document

/-! What an evaluation reads and changes besides its scope.

A `World` holds the source of random numbers and its state, the next free identity, the
values that `where` scopes remember, and the host: how its objects answer, what they list
and take, and the log of what they were asked. A `Run` gives a value or an error, and in either case
the world as it is then: an error does not undo what happened before it. -/
namespace Formulary

/-- How a formula may use an attribute. -/
inductive Mode where
  | readOnly
  | writeOnly
  | readWrite
  deriving DecidableEq, Repr

structure Attribute where
  name : String
  mode : Mode
  deriving DecidableEq, Repr

/-- The two ways to ask for an attribute: `get` has an answer for every key, `query` may
fail. -/
inductive Access where
  | get
  | query
  deriving DecidableEq, Repr

/-- A look-up made on an object of the host. -/
structure Lookup where
  handle : Nat
  access : Access
  key : String
  deriving DecidableEq, Repr

/-- A source of random numbers: what a die with some number of faces shows in a state of the
source, and the state after it. -/
structure Generator where
  draw : (state faces : Nat) → Nat × Nat
  in_range : ∀ state {faces : Nat}, 0 < faces →
    1 ≤ (draw state faces).1 ∧ (draw state faces).1 ≤ faces

structure World where
  generator : Generator
  /-- The state of the generator. -/
  state : Nat
  /-- No object has this identity or a greater one. -/
  free : Nat
  /-- For each `where` scope the values it remembers, the latest first. -/
  caches : Array (List (String × Value))
  /-- What the host answers to a look-up, given those it has answered before. -/
  answer : Array Lookup → Lookup → Except EvalError Value
  /-- What an object of the host lists as its attributes, given the look-ups so far. -/
  listed : Array Lookup → Nat → List Attribute
  /-- Whether an object of the host takes a write. What it does with the value shows in its
  answers. -/
  takes : Array Lookup → Nat → String → Value → Except EvalError Unit
  log : Array Lookup

/-- A world in which nothing has happened yet. Its host lists no attributes and takes no
writes, as an object does that leaves them to the defaults. -/
def World.fresh (generator : Generator)
    (answer : Array Lookup → Lookup → Except EvalError Value) : World where
  generator
  state := 0
  free := 0
  caches := #[]
  answer
  listed _ _ := []
  takes _ _ key _ := .error (.readOnly key)
  log := #[]

/-- A computation that cannot fail. -/
abbrev Always := StateM World

/-- A computation that may fail. -/
abbrev Run := ExceptT EvalError Always

namespace Run

/-- A result that was computed outside. -/
def ofExcept {α : Type} (r : Except EvalError α) : Run α :=
  ExceptT.mk (pure r)

/-- The value of a computation, or the missing value where it fails. -/
def orMissing (r : Run Value) : Always Value := do
  match ← r.run with
  | .ok v => pure v
  | .error _ => pure .missing

/-- An integer, or an overflow where it does not fit. -/
def narrow (what : Computation) (n : Int) : Run Int64 :=
  match Word.narrow? n with
  | some w => pure w
  | none => throw (.overflow what)

theorem narrow_toInt (what : Computation) (n : Int64) : narrow what n.toInt = pure n := by
  rw [narrow, Word.narrow?_toInt]

theorem narrow_of_not_fits (what : Computation) {n : Int} (h : ¬ Word.Fits n) :
    narrow what n = throw (.overflow what) := by
  rw [narrow, Word.narrow?_eq_none_iff.2 h]

end Run

/-! ### Objects and documents -/

/-- A value with a new identity. -/
def newObject (attributes : Object) : Always Value :=
  modifyGet fun w => (.object w.free attributes, { w with free := w.free + 1 })

/-- The value of a document; every record in it becomes a new object. -/
def newValue (d : Document) : Always Value :=
  modifyGet fun w =>
    let (v, free) := Value.ofDocument w.free d
    (v, { w with free := free })

/-- Ask the host, and note it. -/
def askHost (lookup : Lookup) : Always (Except EvalError Value) :=
  modifyGet fun w => (w.answer w.log lookup, { w with log := w.log.push lookup })

/-! ### Remembered values -/

/-- A place for the values of a new `where` scope. -/
def openCache : Always Nat :=
  modifyGet fun w => (w.caches.size, { w with caches := w.caches.push [] })

def remembered (slot : Nat) (name : String) : Always (Option Value) := do
  let w ← get
  pure ((w.caches.getD slot []).lookup name)

def remember (slot : Nat) (name : String) (v : Value) : Always Unit :=
  modify fun w => { w with caches := w.caches.modify slot ((name, v) :: ·) }

end Formulary
