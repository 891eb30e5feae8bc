import DmlCompiler.Json.Printer
import DmlCompiler.Query.Recording

/-! # Writing queries

The JSON form of values, commands, expressions and queries. A variant is written as its name, or
as an object of its name and payload; absent parts are null.
-/
namespace DmlCompiler

namespace Json

def variant (name : String) (payload : Json) : Json := .object [(name, payload)]

def orNull {α : Type} (encode : α → Json) : Option α → Json
  | some a => encode a
  | none => .null

def ofNat (n : Nat) : Json := .integer n

end Json

def SqlValue.encode : SqlValue → Json
  | .null => .string "Null"
  | .boolean b => .variant "Boolean" (.bool b)
  | .smallInt n => .variant "SmallInt" (.integer n.toInt)
  | .integer n => .variant "Integer" (.integer n.toInt)
  | .bigInt n => .variant "BigInt" (.integer n.toInt)
  | .float x => .variant "Float" (.float x)
  | .text s => .variant "Text" (.string s)
  | .uuid u => .variant "Uuid" (.string u.text)
  | .timestamp t => .variant "Timestamp" (.string t.text)
  | .decimal s => .variant "Decimal" (.string s)
  | .json d => .variant "Json" d.value
  | .bytes b => .variant "Bytes" (.array (b.map fun byte => .ofNat byte.toNat))

def SqlValue.asJson (v : SqlValue) : SqlValue := .json (.of v.encode)

def Record.encode (r : Record) : Json :=
  .array (r.map fun (name, value) => .array [.string name, value.encode])

def Permissions.encode (p : Permissions) : Json :=
  .object [("select", .bool p.select), ("insert", .bool p.insert), ("update", .bool p.update),
    ("delete", .bool p.delete), ("truncate", .bool p.truncate)]

def ColumnType.encode (t : ColumnType) : Json := .string t.name

def sizeJson (size : Option UInt32) : Json := Json.orNull (fun n => Json.ofNat n.toNat) size

def ColumnRef.encode (c : ColumnRef) : Json :=
  .object [("table", .string c.table), ("column", .string c.column), ("db_type", c.type.encode),
    ("size", sizeJson c.size), ("permissions", c.permissions.encode)]

def Page.encode (p : Page) : Json :=
  let bound (n : Option UInt64) : Json := Json.orNull (fun n => Json.ofNat n.toNat) n
  .object [("limit", bound p.limit), ("offset", bound p.offset)]

def Parameter.encode (p : Parameter) : Json :=
  .object [("name", .string p.name), ("value", p.value.encode),
    ("db_type", Json.orNull ColumnType.encode p.type), ("size", sizeJson p.size),
    ("direction", .string "Input")]

def Command.encode (c : Command) : Json :=
  .object [("name", .string c.name), ("sql", .string c.sql),
    ("parameters", .array (c.parameters.map Parameter.encode)),
    ("transaction_type", .string c.kind.name), ("pagination", Json.orNull Page.encode c.page)]

def Function.encode (f : Function) : Json :=
  .object [("kind", .string f.kind.name), ("params", .array (f.params.map SqlValue.encode))]

def UpdateOperation.encode : UpdateOperation → Json
  | .set v => .variant "Set" v.encode
  | .increment v => .variant "Increment" v.encode
  | .decrement v => .variant "Decrement" v.encode
  | .multiply v => .variant "Multiply" v.encode
  | .divide v => .variant "Divide" v.encode

mutual

def Expression.encode : Expression → Json
  | ⟨entity, property, column, operator, argument, functions, label, connective, negated, sort,
      children⟩ =>
    .object [("entity", .string entity), ("property", .string property),
      ("column", Json.orNull ColumnRef.encode column),
      ("operator", Json.orNull (fun o => .string o.name) operator),
      ("argument", encodeArgument argument),
      ("functions", .array (functions.map Function.encode)),
      ("alias", Json.orNull .string label),
      ("logical", Json.orNull (fun c => .string c.name) connective),
      ("negated", .bool negated), ("sort", Json.orNull (fun s => .string s.name) sort),
      ("children", .array (encodeExpressions children))]

def encodeExpressions : List Expression → List Json
  | [] => []
  | x :: xs => x.encode :: encodeExpressions xs

def encodeArgument : Option Argument → Json
  | none => .null
  | some argument => argument.encode

def Argument.encode : Argument → Json
  | .value v => .variant "Value" v.encode
  | .range low high => .variant "Range" (.array [low.encode, high.encode])
  | .list operands => .variant "List" (.array (encodeOperands operands))
  | .property other => .variant "Property" other.encode

def encodeOperands : List Operand → List Json
  | [] => []
  | o :: os => o.encode :: encodeOperands os

def Operand.encode : Operand → Json
  | .value v => .variant "Value" v.encode
  | .subQuery q => .variant "SubQuery" q.encode

def SubQuery.encode : SubQuery → Json
  | .command c => .variant "Command" c.encode
  | .deferred q => .variant "Deferred" q.encode

def Query.encode : Query → Json
  | ⟨calls, page⟩ =>
    .object [("queue", .object [("methods", .array (encodeCalls calls))]),
      ("pagination", Json.orNull Page.encode page)]

def encodeCalls : List RecordedCall → List Json
  | [] => []
  | c :: cs => c.encode :: encodeCalls cs

def RecordedCall.encode : RecordedCall → Json
  | ⟨method, typeArguments, arguments⟩ =>
    .object [("method", .string method.name),
      ("type_arguments", .array (typeArguments.map .string)),
      ("arguments", .array (encodeCallArguments arguments))]

def encodeCallArguments : List CallArgument → List Json
  | [] => []
  | a :: as => a.encode :: encodeCallArguments as

def CallArgument.encode : CallArgument → Json
  | .properties xs => .variant "Properties" (.array (encodeExpressions xs))
  | .predicate x => .variant "Predicate" x.encode
  | .values row => .variant "Values" (.array (row.map SqlValue.encode))
  | .record entries => .variant "Record" entries.encode
  | .limit n => .variant "Limit" (.ofNat n.toNat)
  | .joinKind kind => .variant "JoinType" (.string kind.name)
  | .assignment x operation =>
    .variant "Assignment" (.object [("property", x.encode), ("operation", operation.encode)])

end

def Query.toText (q : Query) : String := q.encode.text

def Command.toText (c : Command) : String := c.encode.text

end DmlCompiler
