/-! Tokens: a kind, the text covered, and where it starts.

Words that act as operators (`and`, `or`, `not`, `where`, `d`) are tokens of kind
`word` like any other; only their spelling tells them apart. -/
namespace Formulary

inductive TokenKind where
  /-- Letters, digits and underscores, not starting with a digit. -/
  | word
  /-- Decimal digits. -/
  | integer
  /-- Quoted text; the quotes belong to the token. -/
  | text
  /-- One of `+ - * / % ^ < > <= >= != = .` -/
  | operator
  | openParen
  | closeParen
  | openBracket
  | closeBracket
  | comma
  /-- A run of white space. -/
  | blank
  /-- The end of the text. -/
  | finish
  deriving DecidableEq, Repr

structure Token where
  kind : TokenKind
  text : String
  /-- Byte position of the first character in the source. -/
  offset : Nat
  deriving DecidableEq, Repr

namespace Token

/-- An opening parenthesis or bracket. -/
def opens (t : Token) : Bool :=
  t.kind = .openParen || t.kind = .openBracket

/-- A closing parenthesis or bracket. -/
def closes (t : Token) : Bool :=
  t.kind = .closeParen || t.kind = .closeBracket

theorem not_closes_of_opens {t : Token} (h : t.opens = true) : t.closes = false := by
  cases t with
  | mk kind text offset => cases kind <;> simp_all [opens, closes]

end Token

/-- The texts of a run of tokens, with a space between neighbours. -/
def joinTexts (tokens : List Token) : String :=
  " ".intercalate (tokens.map Token.text)

end Formulary
