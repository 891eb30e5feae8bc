import DmlCompiler.Entity
import DmlCompiler.FieldType
import DmlCompiler.Identifier

/-! # Mapping structs to entities

A struct describes an entity by its fields and by attributes on the struct and on each field.
`StructDescription.table` and `StructDescription.columns` read the attributes in their order, and
the first one out of place is the error. `EntityMapping.entity` is the entity described.
-/
namespace DmlCompiler

inductive AttributeEntry where
  | flag (key : String)
  | text (key : String) (value : String)
  | number (key : String) (value : Int)
  | list (key : String) (flags : List String)
deriving DecidableEq, Repr

abbrev Attribute := List AttributeEntry

inductive StructShape where
  | named
  | other
deriving DecidableEq, Repr

structure FieldDescription where
  name : String
  type : String
  attributes : List Attribute

structure StructDescription where
  name : String
  shape : StructShape
  attributes : List Attribute
  fields : List FieldDescription

inductive MappingError where
  | unknownOperation (name : String)
  | unknownEntityKey
  | unknownColumnKey
  | expectedText
  | expectedNumber
  | numberTooLarge
  | negativeNumber
  | expectedEquals
  | expectedComma
  | expectedList (atEnd : Bool)
  | emptyList
  | badTable (name : String) (cause : IdentifierError)
  | badColumn (name : String) (cause : IdentifierError)
  | emptyProperty
  | propertyTwice (property : String)
  | noNamedFields
deriving DecidableEq, Repr

def deniable : List StatementKind := [.select, .insert, .update, .delete, .truncate]

def StatementKind.keyword (kind : StatementKind) : String := kind.name.toLower

def IdentifierError.attributeMessage : IdentifierError → String
  | .empty => "Name cannot be empty"
  | .tooLong name => s!"Name '{name}' is too long: {name.utf8ByteSize} characters (max 63)"
  | .badStart name => s!"Name '{name}' must start with a letter or underscore"
  | .badCharacters name =>
    s!"Name '{name}' contains invalid characters: only alphanumeric characters and " ++
      "underscores are allowed"
  | .reserved name => s!"Name '{name}' is a reserved SQL keyword"

def MappingError.message : MappingError → String
  | .unknownOperation name =>
    s!"unknown operation '{name}': expected one of " ++
      ", ".intercalate (deniable.map StatementKind.keyword)
  | .unknownEntityKey => "unknown entity attribute: expected table, read_only or deny(...)"
  | .unknownColumnKey =>
    "unknown column attribute: expected name, property, size, primary_key, readonly or skip"
  | .expectedText => "expected string literal"
  | .expectedNumber => "expected integer literal"
  | .numberTooLarge => "number too large to fit in target type"
  | .negativeNumber => "invalid digit found in string"
  | .expectedEquals => "expected `=`"
  | .expectedComma => "expected `,`"
  | .expectedList true => "unexpected end of input, expected parentheses"
  | .expectedList false => "expected parentheses"
  | .emptyList => "unexpected end of input, expected nested attribute"
  | .badTable name cause => s!"Invalid table name '{name}': {cause.attributeMessage}"
  | .badColumn name cause => s!"Invalid column name '{name}': {cause.attributeMessage}"
  | .emptyProperty => "property name cannot be empty"
  | .propertyTwice property => s!"property '{property}' is mapped twice"
  | .noNamedFields => "Entity can only be derived for structs with named fields"

namespace MappedName

def reservedWords : List String := [
  "ALL", "AND", "AS", "ASC", "BETWEEN", "BY", "CASE", "CROSS", "DELETE", "DESC", "DISTINCT",
  "DROP", "ELSE", "END", "EXISTS", "FETCH", "FROM", "FULL", "GROUP", "HAVING", "IN", "INNER",
  "INSERT", "INTO", "IS", "JOIN", "LEFT", "LIKE", "LIMIT", "NOT", "NULL", "OFFSET", "ON", "OR",
  "ORDER", "OUTER", "RIGHT", "ROWS", "SELECT", "SET", "TABLE", "THEN", "TOP", "TRUNCATE", "UNION",
  "UPDATE", "VALUES", "WHEN", "WHERE"]

def isReserved (name : String) : Bool := reservedWords.contains name.toUpper

/-- The rule for names is written down a second time, for attributes: here they are checked where the
struct is described, before there is an entity to be registered. -/
def check (name : String) : Except IdentifierError Unit :=
  if name.isEmpty then .error .empty
  else if 63 < name.utf8ByteSize then .error (.tooLong name)
  else match name.toList.head? with
    | none => .error .empty
    | some first =>
      if !Text.isLetter first && first != '_' then .error (.badStart name)
      else if !name.toList.all Text.isWord then .error (.badCharacters name)
      else if isReserved name then .error (.reserved name)
      else .ok ()

end MappedName

namespace AttributeEntry

def key : AttributeEntry → String
  | .flag key | .text key _ | .number key _ | .list key _ => key

def asText : AttributeEntry → Except MappingError String
  | .text _ value => .ok value
  | .number _ _ => .error .expectedText
  | .flag _ | .list _ _ => .error .expectedEquals

def asSize : AttributeEntry → Except MappingError UInt32
  | .number _ n =>
    if n < 0 then .error .negativeNumber
    else if n < UInt32.size then .ok (.ofNat n.toNat)
    else .error .numberTooLarge
  | .text _ _ => .error .expectedNumber
  | .flag _ | .list _ _ => .error .expectedEquals

/-- A flag has nothing behind its key. -/
def asFlag : AttributeEntry → Except MappingError Unit
  | .flag _ => .ok ()
  | _ => .error .expectedComma

/-- The operation of a flag; a path of several names names none. -/
def operation (flag : String) : Except MappingError StatementKind :=
  match deniable.find? (·.keyword == flag) with
  | some kind => .ok kind
  | none =>
    let isPath := (flag.splitOn "::").length ≠ 1
    .error (.unknownOperation (if isPath then "" else flag))

def asOperations (atEnd : Bool) : AttributeEntry → Except MappingError (List StatementKind)
  | .list _ [] => .error .emptyList
  | .list _ flags => flags.mapM operation
  | .flag _ => .error (.expectedList atEnd)
  | _ => .error (.expectedList false)

end AttributeEntry

structure TableMapping where
  name : String
  table : String
  readOnly : Bool := false
  denied : List StatementKind := []
deriving DecidableEq, Repr

namespace TableMapping

def allows (m : TableMapping) (kind : StatementKind) : Bool :=
  (!m.readOnly || kind = .select) && !m.denied.contains kind

def permissions (m : TableMapping) : Permissions :=
  ⟨m.allows .select, m.allows .insert, m.allows .update, m.allows .delete, m.allows .truncate⟩

def readEntry (m : TableMapping) (atEnd : Bool) (entry : AttributeEntry) :
    Except MappingError TableMapping :=
  match entry.key with
  | "table" => do return { m with table := ← entry.asText }
  | "read_only" => do
    entry.asFlag
    return { m with readOnly := true }
  | "deny" => do return { m with denied := m.denied ++ (← entry.asOperations atEnd) }
  | _ => .error .unknownEntityKey

def readAttribute (m : TableMapping) : Attribute → Except MappingError TableMapping
  | [] => .ok m
  | entry :: rest => do (← m.readEntry rest.isEmpty entry).readAttribute rest

end TableMapping

structure ColumnMapping where
  field : String
  property : String
  column : String
  type : String
  size : Option UInt32 := none
  primaryKey : Bool := false
  readOnly : Bool := false
  skip : Bool := false
deriving DecidableEq, Repr

namespace ColumnMapping

def readEntry (m : ColumnMapping) (entry : AttributeEntry) : Except MappingError ColumnMapping :=
  match entry.key with
  | "name" => do return { m with column := ← entry.asText }
  | "property" => do return { m with property := ← entry.asText }
  | "size" => do return { m with size := some (← entry.asSize) }
  | "primary_key" => do
    entry.asFlag
    return { m with primaryKey := true }
  | "readonly" => do
    entry.asFlag
    return { m with readOnly := true }
  | "skip" => do
    entry.asFlag
    return { m with skip := true }
  | _ => .error .unknownColumnKey

def check (m : ColumnMapping) : Except MappingError Unit :=
  if m.skip then .ok ()
  else match MappedName.check m.column with
    | .error cause => .error (.badColumn m.column cause)
    | .ok () => if m.property.isEmpty then .error .emptyProperty else .ok ()

def compactType (type : String) : String :=
  String.ofList (type.toList.filter (!Text.isBlank ·))

def ofField (f : FieldDescription) : Except MappingError ColumnMapping := do
  let start : ColumnMapping :=
    { field := f.name, property := f.name, column := f.name, type := compactType f.type }
  let m ← f.attributes.flatten.foldlM readEntry start
  m.check
  return m

def repeated? : List ColumnMapping → List String → Option String
  | [], _ => none
  | m :: rest, seen =>
    if seen.contains m.property then some m.property else repeated? rest (m.property :: seen)

/-- Read-only columns are never written, and keys keep the value that was inserted. -/
def toColumn (m : ColumnMapping) : Column :=
  let type := FieldType.columnType m.type
  { property := m.property
    column := m.column
    type := type
    size := m.size <|> type.width?
    permissions := { insert := !m.readOnly, update := !m.readOnly && !m.primaryKey }
    primaryKey := m.primaryKey }

end ColumnMapping

namespace StructDescription

/-- The table is named like the struct unless an attribute says otherwise. -/
def table (d : StructDescription) : Except MappingError TableMapping := do
  let start : TableMapping := { name := d.name, table := d.name }
  let m ← d.attributes.foldlM TableMapping.readAttribute start
  match MappedName.check m.table with
  | .ok () => return m
  | .error cause => throw (.badTable m.table cause)

/-- The columns of all fields, the skipped ones among them. -/
def columns (d : StructDescription) : Except MappingError (List ColumnMapping) := do
  if d.shape ≠ .named then throw .noNamedFields
  let columns ← d.fields.mapM ColumnMapping.ofField
  match ColumnMapping.repeated? (columns.filter (!·.skip)) [] with
  | some property => throw (.propertyTwice property)
  | none => return columns

end StructDescription

structure EntityMapping where
  table : TableMapping
  columns : List ColumnMapping
deriving DecidableEq, Repr

namespace EntityMapping

/-- The errors of the struct's own attributes come before those of the fields. -/
def ofStruct (d : StructDescription) : Except MappingError EntityMapping := do
  return ⟨← d.table, ← d.columns⟩

def entity (m : EntityMapping) : Entity where
  name := m.table.name
  table := m.table.table
  permissions := m.table.permissions
  columns := (m.columns.filter (!·.skip)).map ColumnMapping.toColumn

end EntityMapping
end DmlCompiler
