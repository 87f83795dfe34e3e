import Formulary.Value

/-! Values and documents.

Formulas know integers only: `null` and `false` become 0, `true` becomes 1, a fraction is
cut off, and a number beyond 64 bits becomes the nearest one that fits. A record becomes
an object, and each conversion makes a new one: `ofDocument` takes the next free identity
and gives it back moved on. -/
namespace Formulary.Value

mutual

def ofDocument (free : Nat) : Document → Value × Nat
  | .null => (missing, free)
  | .bool b => (ofBool b, free)
  | .integer n => (.integer (Word.clamp n), free)
  | .double bits => (.integer (Word.clamp (truncateDouble bits)), free)
  | .text s => (.text s, free)
  | .list items =>
    let (items, free) := ofDocuments free items
    (.list items, free)
  | .record fields => (.object free (.record fields), free + 1)

def ofDocuments (free : Nat) : List Document → List Value × Nat
  | [] => ([], free)
  | d :: rest =>
    let (v, free) := ofDocument free d
    let (vs, free) := ofDocuments free rest
    (v :: vs, free)

end

mutual

/-- The document of a value. Of the objects only records have one; those of the host have a
concrete type of their own, and none. -/
def toDocument : Value → Except EvalError Document
  | .integer n => .ok (.integer n.toInt)
  | .text s => .ok (.text s)
  | .list items => do return .list (← toDocuments items)
  | .object _ (.record fields) => .ok (.record fields)
  | .object _ _ => .error (.notSerializable .object)

def toDocuments : List Value → Except EvalError (List Document)
  | [] => .ok []
  | v :: rest => return (← v.toDocument) :: (← toDocuments rest)

end

end Formulary.Value
