import Formulary.Document.Reader
import Formulary.Formula

/-! Tables of formulas, as configuration keeps them.

A registry document is a record. Its texts are formulas of the default table, whose name is
empty, and its records are tables of formulas under their own names. Everything is read in
ascending order of the names, and the first entry that is wrong is the one reported. -/
namespace Formulary

inductive RegistryError where
  /-- The text holds no document, for a reason that its reader gives. -/
  | notADocument (reason : String)
  /-- An entry that is neither a formula nor a table of formulas. -/
  | badShape (entry : String)
  /-- An entry that is no formula. -/
  | badFormula (table key : String) (cause : ParseError)
  deriving Repr

def RegistryError.message : RegistryError → String
  | .notADocument reason => s!"invalid registry document: {reason}"
  | .badShape entry =>
    s!"registry entry '{entry}' must be a formula string or a table of formula strings"
  | .badFormula table key cause =>
    s!"formula '{key}' in table '{table}' failed to compile: {cause.message}"

/-- Tables by name, and in each the formulas by key. -/
structure Registry where
  tables : List (String × List (String × Formula))

namespace Registry

def empty : Registry := ⟨[]⟩

/-- The name of the default table. -/
def defaultTable : String := ""

/-- The entries of a table; none if there is no such table. -/
def table (r : Registry) (name : String) : List (String × Formula) :=
  (r.tables.lookup name).getD []

def get? (r : Registry) (table key : String) : Option Formula :=
  (r.table table).lookup key

def getDefault? (r : Registry) (key : String) : Option Formula :=
  r.get? defaultTable key

/-- The names of the tables, in ascending order. -/
def names (r : Registry) : List String :=
  Keyed.keys r.tables

/-- The keys of a table, in ascending order. -/
def keys (r : Registry) (table : String) : List String :=
  Keyed.keys (r.table table)

/-- Store a formula, in the place of any that has the key already. -/
def put (r : Registry) (table key : String) (f : Formula) : Registry :=
  ⟨Keyed.insert table (Keyed.insert key f (r.table table)) r.tables⟩

theorem table_put (r : Registry) (table key t : String) (f : Formula) :
    (r.put table key f).table t =
      if t = table then Keyed.insert key f (r.table table) else r.table t := by
  rw [Registry.table, put, Keyed.lookup_insert]
  by_cases h : t = table
  · rw [if_pos h, if_pos h, Option.getD_some]
  · rw [if_neg h, if_neg h, Registry.table]

/-- What is stored is found under its own table and key, and all else as before. -/
theorem get?_put (r : Registry) (table key t k : String) (f : Formula) :
    (r.put table key f).get? t k = if t = table ∧ k = key then some f else r.get? t k := by
  rw [get?, table_put]
  by_cases ht : t = table
  · subst ht
    rw [if_pos rfl, Keyed.lookup_insert]
    simp only [true_and, get?]
  · rw [if_neg ht, if_neg (fun h => ht h.1), get?]

/-- Compile a formula and store it. An error leaves the registry as it is by then. -/
def insertion (table key source : String) : ExceptT RegistryError (StateM Registry) Unit := do
  let f ← ExceptT.mk (pure ((Formula.compile source).mapError (.badFormula table key)))
  modify fun r => r.put table key f

theorem run_insertion (r : Registry) (table key source : String) :
    (insertion table key source).run.run r =
      match Formula.compile source with
      | .ok f => (.ok (), r.put table key f)
      | .error cause => (.error (.badFormula table key cause), r) := by
  unfold insertion
  cases Formula.compile source <;> rfl

/-- The registry with one more formula. -/
def insert (r : Registry) (table key source : String) : Except RegistryError Registry :=
  match (insertion table key source).run.run r with
  | (.ok (), r) => .ok r
  | (.error e, _) => .error e

theorem insert_eq (r : Registry) (table key source : String) :
    r.insert table key source =
      match Formula.compile source with
      | .ok f => .ok (r.put table key f)
      | .error cause => .error (.badFormula table key cause) := by
  rw [insert, run_insertion]
  cases Formula.compile source <;> rfl

/-- Store the formulas of a table. -/
def insertTable (r : Registry) (table : String) (entries : List (String × Document)) :
    Except RegistryError Registry :=
  entries.foldlM (fun r (key, entry) =>
    match entry with
    | .text source => r.insert table key source
    | _ => throw (.badShape s!"{table}.{key}")) r

/-- The registry that a document describes. -/
def ofDocument : Document → Except RegistryError Registry
  | .record members =>
    members.foldlM (fun r (name, member) =>
      match member with
      | .text source => r.insert defaultTable name source
      | .record entries => r.insertTable name entries
      | _ => throw (.badShape name)) empty
  | _ => throw (.badShape "<root>")

/-- The registry that the document of a text describes. `explain` is what the reader of
documents says of a text that holds none. -/
def ofText (explain : String → String) (text : String) : Except RegistryError Registry :=
  match Document.ofString? text with
  | some d => ofDocument d
  | none => throw (.notADocument (explain text))

end Registry

end Formulary
