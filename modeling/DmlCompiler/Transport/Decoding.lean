import DmlCompiler.Json.Parser
import DmlCompiler.Transport.Encoding

/-! # Reading queries

Reads what `Transport.Encoding` writes, and a little more: fields in any order and fields of other
names, missing fields for absent parts, records as arrays, names as objects with the payload null.
Everything else is refused, and so is what is unreadable or nested in more than 127 arrays and
objects, unless it stands in a field of another name.
-/
namespace DmlCompiler

namespace Json

def named? {α : Type} (ofName? : String → Option α) (value : Json) : Option α :=
  value.bare?.bind ofName?

def natural? (bound : Nat) (value : Json) : Option Nat :=
  (value.integer? 0 (bound - 1)).map Int.toNat

def u8? (value : Json) : Option UInt8 := (value.natural? UInt8.size).map .ofNat
def u32? (value : Json) : Option UInt32 := (value.natural? UInt32.size).map .ofNat
def u64? (value : Json) : Option UInt64 := (value.natural? UInt64.size).map .ofNat

end Json

def SqlValue.decode? (value : Json) : Option SqlValue :=
  match value.variant? with
  | some ("Null", none) | some ("Null", some .null) => some .null
  | some (name, some payload) =>
    match name with
    | "Boolean" => payload.bool?.map .boolean
    | "SmallInt" =>
      (payload.integer? Int16.minValue.toInt Int16.maxValue.toInt).map fun n => .smallInt (.ofInt n)
    | "Integer" =>
      (payload.integer? Int32.minValue.toInt Int32.maxValue.toInt).map fun n => .integer (.ofInt n)
    | "BigInt" =>
      (payload.integer? Int64.minValue.toInt Int64.maxValue.toInt).map fun n => .bigInt (.ofInt n)
    | "Float" => payload.number?.map .float
    | "Text" => payload.text?.map .text
    | "Uuid" => (payload.text?.bind Uuid.ofText?).map .uuid
    | "Timestamp" => (payload.text?.bind Timestamp.ofText?).map .timestamp
    | "Decimal" => payload.text?.map .decimal
    | "Json" => if payload.isReadable then some (.json (.of payload)) else none
    | "Bytes" => (payload.list? Json.u8?).map .bytes
    | _ => none
  | _ => none

def Record.decodeEntry? : Json → Option (String × SqlValue)
  | .array [name, value] => do return (← name.text?, ← SqlValue.decode? value)
  | _ => none

def Record.decode? (value : Json) : Option Record := value.list? Record.decodeEntry?

def Permissions.decode? (value : Json) : Option Permissions :=
  match value.fields? ["select", "insert", "update", "delete", "truncate"] with
  | some [some select, some insert, some update, some delete, some truncate] => do
    return ⟨← select.bool?, ← insert.bool?, ← update.bool?, ← delete.bool?, ← truncate.bool?⟩
  | _ => none

def ColumnType.decode? (value : Json) : Option ColumnType := value.named? ColumnType.ofName?

def ColumnRef.decode? (value : Json) : Option ColumnRef :=
  match value.fields? ["table", "column", "db_type", "size", "permissions"] with
  | some [some table, some column, some type, size, some permissions] => do
    return ⟨← table.text?, ← column.text?, ← ColumnType.decode? type,
      ← Json.optional? Json.u32? size, ← Permissions.decode? permissions⟩
  | _ => none

def Page.decode? (value : Json) : Option Page :=
  match value.fields? ["limit", "offset"] with
  | some [limit, offset] => do
    return ⟨← Json.optional? Json.u64? limit, ← Json.optional? Json.u64? offset⟩
  | _ => none

def Parameter.decode? (value : Json) : Option Parameter :=
  match value.fields? ["name", "value", "db_type", "size", "direction"] with
  | some [some name, some held, type, size, some direction] => do
    guard (direction.bare? = some "Input")
    return ⟨← name.text?, ← SqlValue.decode? held, ← Json.optional? ColumnType.decode? type,
      ← Json.optional? Json.u32? size⟩
  | _ => none

def Command.decode? (value : Json) : Option Command :=
  match value.fields? ["name", "sql", "parameters", "transaction_type", "pagination"] with
  | some [some name, some sql, some parameters, some kind, page] => do
    return ⟨← name.text?, ← sql.text?, ← parameters.list? Parameter.decode?,
      ← kind.named? StatementKind.ofName?, ← Json.optional? Page.decode? page⟩
  | _ => none

def Function.decode? (value : Json) : Option Function :=
  match value.fields? ["kind", "params"] with
  | some [some kind, some params] => do
    return ⟨← kind.named? FunctionKind.ofName?, ← params.list? SqlValue.decode?⟩
  | _ => none

def UpdateOperation.decode? (value : Json) : Option UpdateOperation :=
  match value.variant? with
  | some (name, some payload) =>
    match name with
    | "Set" => (SqlValue.decode? payload).map .set
    | "Increment" => (SqlValue.decode? payload).map .increment
    | "Decrement" => (SqlValue.decode? payload).map .decrement
    | "Multiply" => (SqlValue.decode? payload).map .multiply
    | "Divide" => (SqlValue.decode? payload).map .divide
    | _ => none
  | _ => none

mutual

def Expression.decodeWithin : Nat → Json → Option Expression
  | 0, _ => none
  | fuel + 1, value =>
    match value.fields? ["entity", "property", "column", "operator", "argument", "functions",
      "alias", "logical", "negated", "sort", "children"] with
    | some [some entity, some property, column, operator, argument, some functions, label,
        connective, some negated, sort, some children] => do
      return ⟨← entity.text?, ← property.text?, ← Json.optional? ColumnRef.decode? column,
        ← Json.optional? (Json.named? Operator.ofName?) operator,
        ← Json.optional? (Argument.decodeWithin fuel) argument,
        ← functions.list? Function.decode?, ← Json.optional? Json.text? label,
        ← Json.optional? (Json.named? Connective.ofName?) connective, ← negated.bool?,
        ← Json.optional? (Json.named? SortOrder.ofName?) sort,
        ← children.list? (Expression.decodeWithin fuel)⟩
    | _ => none

def Argument.decodeWithin : Nat → Json → Option Argument
  | 0, _ => none
  | fuel + 1, value =>
    match value.variant? with
    | some ("Value", some payload) => (SqlValue.decode? payload).map .value
    | some ("Range", some (.array [low, high])) => do
      return .range (← SqlValue.decode? low) (← SqlValue.decode? high)
    | some ("List", some payload) => (payload.list? (Operand.decodeWithin fuel)).map .list
    | some ("Property", some payload) => (Expression.decodeWithin fuel payload).map .property
    | _ => none

def Operand.decodeWithin : Nat → Json → Option Operand
  | 0, _ => none
  | fuel + 1, value =>
    match value.variant? with
    | some ("Value", some payload) => (SqlValue.decode? payload).map .value
    | some ("SubQuery", some payload) => (SubQuery.decodeWithin fuel payload).map .subQuery
    | _ => none

def SubQuery.decodeWithin : Nat → Json → Option SubQuery
  | 0, _ => none
  | fuel + 1, value =>
    match value.variant? with
    | some ("Command", some payload) => (Command.decode? payload).map .command
    | some ("Deferred", some payload) => (Query.decodeWithin fuel payload).map .deferred
    | _ => none

def Query.decodeWithin : Nat → Json → Option Query
  | 0, _ => none
  | fuel + 1, value =>
    match value.fields? ["queue", "pagination"] with
    | some [some queue, page] =>
      match queue.fields? ["methods"] with
      | some [some calls] => do
        return ⟨← calls.list? (RecordedCall.decodeWithin fuel), ← Json.optional? Page.decode? page⟩
      | _ => none
    | _ => none

def RecordedCall.decodeWithin : Nat → Json → Option RecordedCall
  | 0, _ => none
  | fuel + 1, value =>
    match value.fields? ["method", "type_arguments", "arguments"] with
    | some [some method, some typeArguments, some arguments] => do
      return ⟨← method.named? Method.ofName?, ← typeArguments.list? Json.text?,
        ← arguments.list? (CallArgument.decodeWithin fuel)⟩
    | _ => none

def CallArgument.decodeWithin : Nat → Json → Option CallArgument
  | 0, _ => none
  | fuel + 1, value =>
    match value.variant? with
    | some (name, some payload) =>
      match name with
      | "Properties" => (payload.list? (Expression.decodeWithin fuel)).map .properties
      | "Predicate" => (Expression.decodeWithin fuel payload).map .predicate
      | "Values" => (payload.list? SqlValue.decode?).map .values
      | "Record" => (Record.decode? payload).map .record
      | "Limit" => payload.u64?.map .limit
      | "JoinType" => (payload.named? JoinKind.ofName?).map .joinKind
      | "Assignment" =>
        match payload.fields? ["property", "operation"] with
        | some [some property, some operation] => do
          return .assignment (← Expression.decodeWithin fuel property)
            (← UpdateOperation.decode? operation)
        | _ => none
      | _ => none
    | _ => none

end

def Expression.decode? (value : Json) : Option Expression :=
  Expression.decodeWithin (value.depth + 1) value

def SubQuery.decode? (value : Json) : Option SubQuery :=
  SubQuery.decodeWithin (value.depth + 1) value

def Query.decode? (value : Json) : Option Query := Query.decodeWithin (value.depth + 1) value

namespace Transport

/-- The deepest nesting that is read. -/
def maxDepth : Nat := 127

def document (text : String) : Except QueryError Json :=
  match Json.parse? text with
  | some value => .ok (value.within maxDepth)
  | none => .error .serialization

def read {α : Type} (decode? : Json → Option α) (text : String) : Except QueryError α := do
  match decode? (← document text) with
  | some a => return a
  | none => throw .serialization

end Transport

def SqlValue.ofText (text : String) : Except QueryError SqlValue :=
  Transport.read SqlValue.decode? text

def Command.ofText (text : String) : Except QueryError Command :=
  Transport.read Command.decode? text

def Query.ofText (text : String) : Except QueryError Query := Transport.read Query.decode? text

def Record.ofText (text : String) : Except QueryError Record := do
  let value ← Transport.document text
  if value.isReadable then return Record.ofJson value else throw .serialization

end DmlCompiler
