import DmlCompiler.SqlValue
import DmlCompiler.Timestamp.Reader

/-! # Records

A record pairs names with values. `Record.ofJson` makes one of the fields of a JSON object, sorted
by name, and an empty one of anything else.
-/
namespace DmlCompiler

abbrev Record := List (String × SqlValue)

namespace SqlValue

/-- An integer in the narrowest of the 32-bit and 64-bit words that holds it; a larger one becomes
the nearest binary64 number. -/
def ofInteger (n : Int) : SqlValue :=
  if Int32.minValue.toInt ≤ n ∧ n ≤ Int32.maxValue.toInt then .integer (.ofInt n)
  else if Int64.minValue.toInt ≤ n ∧ n ≤ Int64.maxValue.toInt then .bigInt (.ofInt n)
  else .float (.ofInt n)

/-- A string that is a timestamp of RFC 3339 becomes one. -/
def ofJson : Json → SqlValue
  | .null => .null
  | .bool b => .boolean b
  | .integer n => ofInteger n
  | .float x => .float x
  | .string s =>
    match Timestamp.ofRfc3339? s with
    | some t => .timestamp t
    | none => .text s
  | value => .json (.of value)

end SqlValue

/-- The normal form of the object puts its names in order and keeps the last field of a name. -/
def Record.ofJson (value : Json) : Record :=
  match (JsonDocument.of value).value with
  | .object fields => fields.map fun (name, x) => (name, SqlValue.ofJson x)
  | _ => []

end DmlCompiler
