import Formulary.Object

/-! Scopes: what a name means while a formula is evaluated.

A scope is an object at the bottom and layers over it. A layer of elements binds names to
values; list functions use it for `value`, and for `a` and `b` of a comparison. A layer of
definitions binds names to computations that run at each look-up. A layer of clauses, that
of a `where`, does the same but remembers: a clause runs until the first look-up that it
succeeds in, and its value stands from then on (`query`). A clause that fails is not
remembered, and one that nobody asks for never runs.

Asking a layer of computations with `get` is asking it with `query` and taking the missing
value for an error, also for names that the layer does not bind. -/
namespace Formulary

inductive Scope where
  | object (o : Object)
  | elements (bindings : List (String × Value)) (outer : Scope)
  | definitions (bindings : List (String × Run Value)) (outer : Scope)
  /-- `slot` is where the values of this layer are remembered. -/
  | clauses (slot : Nat) (bindings : List (String × Run Value)) (outer : Scope)

namespace Scope

def query : Scope → String → Run Value
  | object o, name => o.query name
  | elements bindings outer, name =>
    match bindings.lookup name with
    | some v => pure v
    | none => outer.query name
  | definitions bindings outer, name =>
    match bindings.lookup name with
    | some computation => computation
    | none => outer.query name
  | clauses slot bindings outer, name => do
    match ← remembered slot name with
    | some v => pure v
    | none =>
      match bindings.lookup name with
      | some clause =>
        let v ← clause
        remember slot name v
        pure v
      | none => outer.query name

def get : Scope → String → Always Value
  | object o, name => o.get name
  | elements bindings outer, name =>
    match bindings.lookup name with
    | some v => pure v
    | none => outer.get name
  | scope, name => (scope.query name).orMissing

/-- The names that a scope is known to answer. Those of its layers come first, from the
inside out, and cannot be written. -/
def attributes (w : World) : Scope → List Attribute
  | object o => o.attributes w
  | elements bindings outer =>
    (bindings.map fun b => ⟨b.1, .readOnly⟩) ++ outer.attributes w
  | definitions bindings outer | clauses _ bindings outer =>
    (bindings.map fun b => ⟨b.1, .readOnly⟩) ++ outer.attributes w

/-- A layer for one element of a list. -/
def element (v : Value) (outer : Scope) : Scope :=
  elements [("value", v)] outer

/-- A layer for a comparison of two elements. -/
def pair (a b : Value) (outer : Scope) : Scope :=
  elements [("a", a), ("b", b)] outer

/-- A layer of clauses that remembers nothing yet. -/
def openClauses (bindings : List (String × Run Value)) (outer : Scope) : Always Scope := do
  let slot ← openCache
  pure (clauses slot bindings outer)

end Scope

/-- An expression as evaluation sees it: a computation for each scope. -/
abbrev Meaning := Scope → Run Value

end Formulary
