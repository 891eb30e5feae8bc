import DmlCompiler.Text.Digits

/-! # Identifiers

Table, column and alias names stand in the SQL text as they are, so each is checked first: an
ASCII letter or underscore, then letters, digits and underscores, at most 63 in all. Tables and
columns must not be reserved words either.
-/
namespace DmlCompiler

inductive IdentifierError where
  | empty
  | tooLong (name : String)
  | badStart (name : String)
  | badCharacters (name : String)
  | reserved (name : String)
deriving DecidableEq, Repr

namespace Identifier

/-- The least of the limits of the databases. -/
def maxLength : Nat := 63

def reservedWords : List String := [
  "ALL", "AND", "AS", "ASC", "BETWEEN", "BY", "CASE", "CROSS", "DELETE", "DESC", "DISTINCT",
  "DROP", "ELSE", "END", "EXISTS", "FETCH", "FROM", "FULL", "GROUP", "HAVING", "IN", "INNER",
  "INSERT", "INTO", "IS", "JOIN", "LEFT", "LIKE", "LIMIT", "NOT", "NULL", "OFFSET", "ON", "OR",
  "ORDER", "OUTER", "RIGHT", "ROWS", "SELECT", "SET", "TABLE", "THEN", "TOP", "TRUNCATE", "UNION",
  "UPDATE", "VALUES", "WHEN", "WHERE"]

def isReserved (name : String) : Bool := reservedWords.contains name.toUpper

/-- The rule for aliases. The length is that of the UTF-8 encoding. -/
def checkShape (name : String) : Except IdentifierError Unit :=
  match name.toList with
  | [] => .error .empty
  | first :: rest =>
    if maxLength < name.utf8ByteSize then .error (.tooLong name)
    else if !(Text.isLetter first || first == '_') then .error (.badStart name)
    else if !rest.all Text.isWord then .error (.badCharacters name)
    else .ok ()

def check (name : String) : Except IdentifierError Unit := do
  checkShape name
  if isReserved name then .error (.reserved name) else .ok ()

end Identifier

def IdentifierError.message : IdentifierError → String
  | .empty => "identifier is empty"
  | .tooLong name =>
    s!"'{name}' is {name.utf8ByteSize} characters long, the limit is {Identifier.maxLength}"
  | .badStart name => s!"'{name}' must start with a letter or underscore"
  | .badCharacters name => s!"'{name}' may only contain ASCII letters, digits and underscores"
  | .reserved name => s!"'{name}' is a reserved SQL keyword"

end DmlCompiler
