import DmlCompiler.ColumnType
import DmlCompiler.Text.Blank

/-! # Field types

The column type that suits a field of a struct, by the spelling of the field's type, and whether
the field's value converts to a parameter value directly. One `Option` around the type is ignored.
-/
namespace DmlCompiler.FieldType

/-- The type without spaces and without one `Option` around it. -/
def essence (type : String) : String :=
  let s := type.toList.filter (· ≠ ' ')
  let inner? :=
    if "Option<".toList.isPrefixOf s then
      let rest := s.drop 7
      if rest.getLast? = some '>' then some rest.dropLast else none
    else none
  String.ofList (inner?.getD s)

/-- Whether the type is spelled like an `Option`, blanks before it aside. -/
def isOptional (type : String) : Bool :=
  "Option".toList.isPrefixOf (Text.trimStart type.toList)

/-- A type without a column type of its own is held as JSON. -/
def columnType (type : String) : ColumnType :=
  match essence type with
  | "Uuid" | "uuid::Uuid" => .uuid
  | "String" | "&str" | "&'staticstr" => .varChar
  | "i8" | "i16" => .smallInt
  | "i32" | "u16" => .integer
  | "i64" | "u32" => .bigInt
  | "u64" | "rust_decimal::Decimal" | "bigdecimal::BigDecimal" => .decimal
  | "f32" => .real
  | "f64" => .double
  | "bool" => .boolean
  | "chrono::DateTime<chrono::Utc>" | "DateTime<Utc>" | "chrono::NaiveDateTime"
  | "NaiveDateTime" => .timestamp
  | "chrono::NaiveDate" | "NaiveDate" => .date
  | "Vec<u8>" => .binary
  | _ => .json

def directTypes : List String := [
  "String", "&str", "i8", "i16", "i32", "i64", "u16", "u32", "f32", "f64", "bool", "Uuid",
  "uuid::Uuid", "chrono::DateTime<chrono::Utc>", "DateTime<Utc>", "chrono::NaiveDateTime",
  "NaiveDateTime", "serde_json::Value", "Value", "Vec<u8>"]

/-- Whether a parameter value is made of the field's value itself and not of its JSON form. -/
def isDirect (type : String) : Bool := directTypes.contains (essence type)

end DmlCompiler.FieldType
