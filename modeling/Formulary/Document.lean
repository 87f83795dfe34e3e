import Formulary.Keyed

/-! JSON documents.

A number is an integer or a double. A document keeps a double as its 64 bits, so that
documents can be compared; `truncateDouble` reads them. The fields of a record are a
`Keyed` table; where they stand as they are written, `ordered` makes them one. -/
namespace Formulary

inductive Document where
  | null
  | bool (b : Bool)
  | integer (n : Int)
  /-- A double, as its bits. -/
  | double (bits : UInt64)
  | text (s : String)
  | list (items : List Document)
  | record (fields : List (String × Document))
  deriving BEq, Repr

/-- The whole part of a finite double, toward zero. Of the 64 bits, the first is the sign,
the next 11 are the exponent and the last 52 the fraction. -/
def truncateDouble (bits : UInt64) : Int :=
  let n := bits.toNat
  let exponent := (n >>> 52) % (1 <<< 11)
  let fraction := n % (1 <<< 52)
  let magnitude : Nat :=
    if exponent = 0 then 0
    else
      let significand := (1 <<< 52) + fraction
      if 1075 ≤ exponent then significand <<< (exponent - 1075)
      else significand >>> (1075 - exponent)
  if n >>> 63 = 0 then magnitude else -magnitude

namespace Document

mutual

/-- The document with the fields of every record in ascending order of their names. Of
several fields with one name the last one counts. -/
def ordered : Document → Document
  | .list items => .list (orderedItems items)
  | .record fields => .record (Keyed.ofList (orderedFields fields))
  | d => d

def orderedItems : List Document → List Document
  | [] => []
  | d :: rest => d.ordered :: orderedItems rest

def orderedFields : List (String × Document) → List (String × Document)
  | [] => []
  | (name, d) :: rest => (name, d.ordered) :: orderedFields rest

end

end Document

end Formulary
