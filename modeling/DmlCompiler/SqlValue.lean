import DmlCompiler.ColumnType
import DmlCompiler.Json.Document
import DmlCompiler.Timestamp
import DmlCompiler.Uuid

/-! # Parameter values

What a parameter carries. A decimal is held as its text, so that no digit is lost.
-/
namespace DmlCompiler

inductive SqlValue where
  | null
  | boolean (value : Bool)
  | smallInt (value : Int16)
  | integer (value : Int32)
  | bigInt (value : Int64)
  | float (value : Binary64)
  | text (value : String)
  | uuid (value : Uuid)
  | timestamp (value : Timestamp)
  | decimal (value : String)
  | json (value : JsonDocument)
  | bytes (value : List UInt8)
deriving DecidableEq, Repr, Inhabited

namespace SqlValue

def isNull : SqlValue → Bool
  | .null => true
  | _ => false

def columnType? : SqlValue → Option ColumnType
  | .null => none
  | .boolean _ => some .boolean
  | .smallInt _ => some .smallInt
  | .integer _ => some .integer
  | .bigInt _ => some .bigInt
  | .float _ => some .double
  | .text _ => some .text
  | .uuid _ => some .uuid
  | .timestamp _ => some .timestamp
  | .decimal _ => some .decimal
  | .json _ => some .json
  | .bytes _ => some .binary

end SqlValue
end DmlCompiler
