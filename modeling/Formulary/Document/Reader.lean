import Formulary.Document
import Formulary.Text.Decimal

/-! From text to documents.

The reader is strict: blanks are space, tab, line feed and carriage return only; control
characters must be escaped and surrogates must come in pairs; nothing may follow the
document. Lists and records may be nested 127 deep, and the depth left is what the
reader recurs on. Fields keep the order of the text until the whole document is read (`written?`);
only then do the records become tables (`ofString?`).

A number without fraction and exponent is an integer if it fits 64 bits, signed or
unsigned; `-0` and all others are doubles. The significand of a double is the longest
run of digits that fits 64 bits; it is rounded to a double and then multiplied or
divided by a power of ten, which rounds again. A number beyond the doubles is refused. -/
namespace Formulary.Document

/-- Reads something at the head of a text and gives it with the text after it. -/
abbrev Reader (α : Type) := List Char → Option (α × List Char)

def skipBlanks (cs : List Char) : List Char :=
  cs.dropWhile fun c => c = ' ' || c = '\t' || c = '\n' || c = '\r'

/-- The text after a keyword. -/
def readKeyword (keyword : String) (d : Document) : Reader Document := fun cs =>
  if keyword.toList.isPrefixOf cs then some (d, cs.drop keyword.length) else none

/-! ### Text -/

def hexDigit? (c : Char) : Option Nat :=
  if Text.isDigit c then some (Text.digitValue c)
  else if 'a' ≤ c && c ≤ 'f' then some (c.toNat - 'a'.toNat + 10)
  else if 'A' ≤ c && c ≤ 'F' then some (c.toNat - 'A'.toNat + 10)
  else none

def hexCode? (a b c d : Char) : Option Nat := do
  pure ((((← hexDigit? a) * 16 + (← hexDigit? b)) * 16 + (← hexDigit? c)) * 16 + (← hexDigit? d))

def shortEscape? : Char → Option Char
  | '"' => some '"'
  | '\\' => some '\\'
  | '/' => some '/'
  | 'b' => some '\x08'
  | 'f' => some '\x0c'
  | 'n' => some '\n'
  | 'r' => some '\r'
  | 't' => some '\t'
  | _ => none

/-- What an escape with four hexadecimal digits asks of the text after it. -/
inductive Unit16 where
  | scalar (c : Char)
  /-- The first half of a pair. -/
  | high (n : Nat)
  /-- The second half of a pair. -/
  | low (n : Nat)

def Unit16.ofNat (n : Nat) : Unit16 :=
  if n < 0xD800 || 0xE000 ≤ n then .scalar (Char.ofNat n)
  else if n < 0xDC00 then .high (n - 0xD800)
  else .low (n - 0xDC00)

/-- The characters of a text up to its closing quote. -/
def readText : Reader (List Char)
  | [] => none
  | '"' :: rest => some ([], rest)
  | '\\' :: 'u' :: a :: b :: c :: d :: rest =>
    match (hexCode? a b c d).map Unit16.ofNat with
    | some (.scalar x) => (readText rest).map fun (cs, rest) => (x :: cs, rest)
    | some (.high hi) =>
      match rest with
      | '\\' :: 'u' :: a :: b :: c :: d :: rest =>
        match (hexCode? a b c d).map Unit16.ofNat with
        | some (.low lo) =>
          (readText rest).map fun (cs, rest) =>
            (Char.ofNat (0x10000 + hi * 0x400 + lo) :: cs, rest)
        | _ => none
      | _ => none
    | _ => none
  | '\\' :: c :: rest =>
    match shortEscape? c with
    | some x => (readText rest).map fun (cs, rest) => (x :: cs, rest)
    | none => none
  | c :: rest =>
    if c.toNat < 0x20 || c = '\\' then none
    else (readText rest).map fun (cs, rest) => (c :: cs, rest)

/-! ### Numbers -/

/-- The number with `digits` written after it, as long as it stays below 2⁶⁴, and the
digits that had no place any more. -/
def extend (n : Nat) : List Char → Nat × List Char
  | [] => (n, [])
  | d :: ds =>
    let longer := 10 * n + Text.digitValue d
    if longer < 1 <<< 64 then extend longer ds else (n, d :: ds)

/-- `significand · 10 ^ exponent` as a double, or nothing if it is beyond the doubles.
An exponent below -308 is worked off in steps. -/
def scale (significand : Float) (exponent : Int) : Option Float :=
  if exponent.natAbs ≤ 308 then
    let power := Float.ofScientific 1 false exponent.natAbs
    if 0 ≤ exponent then
      let scaled := significand * power
      if scaled.isInf then none else some scaled
    else some (significand / power)
  else if significand == 0 then some significand
  else if 0 ≤ exponent then none
  else scale (significand / 1e308) (exponent + 308)
termination_by exponent.natAbs

/-- The double with a given sign and decimal parts: the digits before and after the
point, and the exponent. -/
def doubleOf (negative : Bool) (whole fraction : List Char) (exponent : Int) : Option Document := do
  let (significand, dropped) := extend 0 whole
  let (significand, cut) := extend significand fraction
  let exponent := exponent + dropped.length - (fraction.length - cut.length)
  let magnitude ← scale (UInt64.ofNat significand).toFloat exponent
  pure (.double (if negative then -magnitude else magnitude).toBits)

/-- An integer, or the double nearest to it where it does not fit. -/
def integerOf (negative : Bool) (digits : List Char) : Option Document :=
  match extend 0 digits with
  | (n, []) =>
    if !negative then some (.integer n)
    else if 0 < n && n ≤ 1 <<< 63 then some (.integer (-n))
    else doubleOf negative digits [] 0
  | _ => doubleOf negative digits [] 0

/-- At least one digit, as many as there are. -/
def readDigits : Reader (List Char) := fun cs =>
  match cs.takeWhile Text.isDigit with
  | [] => none
  | digits => some (digits, cs.dropWhile Text.isDigit)

/-- The exponent after its `e`. -/
def readExponent : Reader Int := fun cs => do
  let (negative, cs) := match cs with
    | '+' :: rest => (false, rest)
    | '-' :: rest => (true, rest)
    | cs => (false, cs)
  let (digits, cs) ← readDigits cs
  let n := Text.ofDigits digits
  pure (if negative then -(n : Int) else n, cs)

/-- A number after its sign. -/
def readMagnitude (negative : Bool) : Reader Document := fun cs => do
  let (whole, cs) ← readDigits cs
  if whole.head? = some '0' && 1 < whole.length then none
  let (fraction, cs) ← match cs with
    | '.' :: rest => (readDigits rest).map fun (ds, rest) => (some ds, rest)
    | cs => some (none, cs)
  let (exponent, cs) ← match cs with
    | 'e' :: rest | 'E' :: rest => (readExponent rest).map fun (n, rest) => (some n, rest)
    | cs => some (none, cs)
  let number ← match fraction, exponent with
    | none, none => integerOf negative whole
    | _, _ => doubleOf negative whole (fraction.getD []) (exponent.getD 0)
  pure (number, cs)

def readNumber : Reader Document
  | '-' :: rest => readMagnitude true rest
  | cs => readMagnitude false cs

/-! ### Lists and records -/

/-- Items with commas between them, up to a closing character. The first argument bounds
their number; a text has no more items than characters. -/
def readSeparated {α : Type} (item : Reader α) (close : Char) : Nat → Reader (List α)
  | 0, _ => none
  | n + 1, cs => do
    let (first, cs) ← item cs
    match skipBlanks cs with
    | ',' :: rest =>
      let (others, cs) ← readSeparated item close n rest
      pure (first :: others, cs)
    | c :: rest => if c = close then some ([first], rest) else none
    | [] => none

/-- The same, possibly none at all. -/
def readItems {α : Type} (item : Reader α) (close : Char) : Reader (List α) := fun cs =>
  match skipBlanks cs with
  | [] => none
  | c :: rest => if c = close then some ([], rest) else readSeparated item close cs.length cs

/-- A field of a record. -/
def readField (value : Reader Document) : Reader (String × Document) := fun cs =>
  match skipBlanks cs with
  | '"' :: rest => do
    let (name, cs) ← readText rest
    match skipBlanks cs with
    | ':' :: rest =>
      let (d, cs) ← value rest
      pure ((String.ofList name, d), cs)
    | _ => none
  | _ => none

/-- A document after any blanks. Its items and fields are read by `inner`; without one,
lists and records are refused. -/
def readWith (inner : Option (Reader Document)) : Reader Document := fun cs =>
  match skipBlanks cs with
  | '[' :: rest => do
    let (items, rest) ← readItems (← inner) ']' rest
    pure (.list items, rest)
  | '\x7b' :: rest => do
    let (fields, rest) ← readItems (readField (← inner)) '\x7d' rest
    pure (.record fields, rest)
  | '"' :: rest => do
    let (s, rest) ← readText rest
    pure (.text (String.ofList s), rest)
  | 'n' :: rest => readKeyword "null" .null ('n' :: rest)
  | 't' :: rest => readKeyword "true" (.bool true) ('t' :: rest)
  | 'f' :: rest => readKeyword "false" (.bool false) ('f' :: rest)
  | cs => readNumber cs

/-- A document in which lists and records are nested no deeper than the argument. -/
def readNested : Nat → Reader Document
  | 0 => readWith none
  | depth + 1 => readWith (some (readNested depth))

/-- The deepest nesting that is read. -/
def deepest : Nat := 127

/-- The document that a whole text holds, with the fields of its records as they are
written. -/
def written? (text : String) : Option Document :=
  match readNested deepest text.toList with
  | some (d, rest) => if (skipBlanks rest).isEmpty then some d else none
  | none => none

/-- The document that a whole text holds. -/
def ofString? (text : String) : Option Document :=
  (written? text).map ordered

end Formulary.Document
