import Formulary.Object

/-! Environments: a layer of attributes of one's own over an object that is asked for the
rest. -/
namespace Formulary

structure Environment where
  entries : List (String × Value)
  fallback : Object

namespace Environment

def empty : Environment := ⟨[], .nothing⟩

/-- The environment as an object. -/
def toObject (env : Environment) : Object :=
  .layer env.entries env.fallback

/-- A new, empty layer over an object. -/
def above (fallback : Object) : Environment := ⟨[], fallback⟩

/-- An object as an environment: a layer is one, over any other stands an empty one. -/
def ofObject : Object → Environment
  | .layer entries fallback => ⟨entries, fallback⟩
  | o => above o

/-- A new, empty layer over the environment. -/
def extend (env : Environment) : Environment := above env.toObject

def insert (env : Environment) (key : String) (v : Value) : Environment :=
  { env with entries := Keyed.insert key v env.entries }

/-- Write an attribute, as that of any object. -/
def set (w : World) (env : Environment) (key : String) (v : Value) :
    Except EvalError Environment :=
  (env.toObject.set w key v).map ofObject

def get (env : Environment) (key : String) : Always Value := env.toObject.get key

def query (env : Environment) (key : String) : Run Value := env.toObject.query key

/-- Whether the top layer has the key. -/
def contains (env : Environment) (key : String) : Bool :=
  Keyed.contains key env.entries

/-- The number of keys of the top layer. -/
def size (env : Environment) : Nat := env.entries.length

def isEmpty (env : Environment) : Bool := env.entries.isEmpty

def attributes (w : World) (env : Environment) : List Attribute := env.toObject.attributes w

/-- An environment takes every write. -/
theorem set_eq (w : World) (env : Environment) (key : String) (v : Value) :
    env.set w key v = .ok (env.insert key v) := rfl

theorem get_insert (env : Environment) (key k : String) (v : Value) :
    (env.insert key v).get k = if k = key then pure v else env.get k := by
  simp only [get, toObject, insert, Object.get, Keyed.lookup_insert]
  by_cases h : k = key
  · simp only [if_pos h]
  · simp only [if_neg h]

theorem query_insert (env : Environment) (key k : String) (v : Value) :
    (env.insert key v).query k = if k = key then pure v else env.query k := by
  simp only [query, toObject, insert, Object.query, Keyed.lookup_insert]
  by_cases h : k = key
  · simp only [if_pos h]
  · simp only [if_neg h]

end Environment

end Formulary
