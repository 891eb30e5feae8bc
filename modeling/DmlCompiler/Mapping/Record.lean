import DmlCompiler.Mapping
import DmlCompiler.SqlValue.Record

/-! # Records of struct values

A struct value is given by the JSON forms of its fields. `FieldType.value?` is the parameter value
of one field, and `EntityMapping.record?` the record of all of them under their properties.
-/
namespace DmlCompiler

namespace FieldType

/-- The value of a type that converts directly. A narrow integer takes the next wider signed
word. -/
def direct? (type : String) (field : Json) : Option SqlValue :=
  let within (low high : Int) (make : Int → SqlValue) : Option SqlValue :=
    (field.integer? low high).map make
  match type with
  | "String" | "&str" | "&String" => field.text?.map .text
  | "i8" => within (-2 ^ 7) (2 ^ 7 - 1) fun n => .smallInt (.ofInt n)
  | "i16" => within (-2 ^ 15) (2 ^ 15 - 1) fun n => .smallInt (.ofInt n)
  | "i32" => within (-2 ^ 31) (2 ^ 31 - 1) fun n => .integer (.ofInt n)
  | "i64" => within (-2 ^ 63) (2 ^ 63 - 1) fun n => .bigInt (.ofInt n)
  | "u16" => within 0 (2 ^ 16 - 1) fun n => .integer (.ofInt n)
  | "u32" => within 0 (2 ^ 32 - 1) fun n => .bigInt (.ofInt n)
  | "f32" =>
    match field with
    | .integer n => some (.float (.singleOfInt n))
    | field => field.number?.map fun x => .float x.roundToSingle
  | "f64" => field.number?.map .float
  | "bool" => field.bool?.map .boolean
  | "Uuid" | "uuid::Uuid" => (field.text?.bind Uuid.ofText?).map .uuid
  | "chrono::DateTime<chrono::Utc>" | "DateTime<Utc>" =>
    (field.text?.bind Timestamp.ofText?).map .timestamp
  | "chrono::NaiveDateTime" | "NaiveDateTime" =>
    (field.text?.bind Timestamp.ofLocalText?).map .timestamp
  | "serde_json::Value" | "Value" => some (.json (.of field))
  | "Vec<u8>" => (field.list? byte?).map .bytes
  | _ => none
where
  byte? (item : Json) : Option UInt8 := (item.integer? 0 255).map fun n => .ofNat n.toNat

def convert? (type : String) (field : Json) : Option SqlValue :=
  if isOptional type && field = .null then some .null else direct? (essence type) field

/-- The value of a field of any type; a missing value of an indirect type is the JSON null. -/
def value? (type : String) (field : Json) : Option SqlValue :=
  if isDirect type then convert? type field else some (.json (.of field))

end FieldType

def EntityMapping.record? (m : EntityMapping) (value : Json) : Option Record :=
  (m.columns.filter (!·.skip)).mapM fun c => do
    return (c.property, ← FieldType.value? c.type ((value.get? c.field).getD .null))

end DmlCompiler
