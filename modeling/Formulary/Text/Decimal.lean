/-! Decimal digits of ASCII, and the numbers they write. -/
namespace Formulary.Text

def isDigit (c : Char) : Bool :=
  '0' ≤ c && c ≤ '9'

def digitValue (c : Char) : Nat :=
  c.toNat - '0'.toNat

/-- The number that digits write, the most significant first. -/
def ofDigits (digits : List Char) : Nat :=
  digits.foldl (fun n d => 10 * n + digitValue d) 0

end Formulary.Text
