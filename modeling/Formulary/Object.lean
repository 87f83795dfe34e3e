import Formulary.Evaluation.World
import Formulary.Keyed

/-! Attributes of objects.

`get` answers every key, with the missing value for one that is unknown, so that formulas
may probe. `query` is what evaluation uses; only an object of the host can make it fail.
`attributes` lists what an object is known to have: a layer first lists what is below it,
then its own keys in ascending order, and of its objects the host alone knows what they
list. -/
namespace Formulary

namespace Location

/-- The attributes of a tile. -/
def get (l : Location) : String → Value
  | "x" => .integer l.x
  | "y" => .integer l.y
  | "valid" => .ofBool l.onMap
  | _ => .missing

end Location

namespace Object

def get : Object → String → Always Value
  | nothing, _ => pure .missing
  | tile l, key => pure (l.get key)
  | record fields, key =>
    match fields.lookup key with
    | some d => newValue d
    | none => pure .missing
  | layer entries fallback, key =>
    match entries.lookup key with
    | some v => pure v
    | none => fallback.get key
  | host handle, key => do
    match ← askHost ⟨handle, .get, key⟩ with
    | .ok v => pure v
    | .error _ => pure .missing

def query : Object → String → Run Value
  | layer entries fallback, key =>
    match entries.lookup key with
    | some v => pure v
    | none => fallback.query key
  | host handle, key => ExceptT.mk (askHost ⟨handle, .query, key⟩)
  | object, key => liftM (object.get key)

def attributes (w : World) : Object → List Attribute
  | nothing => []
  | host handle => w.listed w.log handle
  | tile _ => [⟨"x", .readOnly⟩, ⟨"y", .readOnly⟩, ⟨"valid", .readOnly⟩]
  | record fields => (Keyed.keys fields).map fun key => ⟨key, .readOnly⟩
  | layer entries fallback =>
    fallback.attributes w ++ (Keyed.keys entries).map fun key => ⟨key, .readWrite⟩

/-- Write an attribute. A layer takes it, at the top, and so may an object of the host. -/
def set (w : World) : Object → String → Value → Except EvalError Object
  | layer entries fallback, key, v => .ok (layer (Keyed.insert key v entries) fallback)
  | host handle, key, v => (w.takes w.log handle key v).map fun _ => host handle
  | _, key, _ => .error (.readOnly key)

/-- An object whose concrete type built-in functions can see. That of an object of the host
is not known here. -/
def isConcrete : Object → Bool
  | tile _ | record _ => true
  | _ => false

end Object

end Formulary
