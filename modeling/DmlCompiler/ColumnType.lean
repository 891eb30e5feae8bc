/-! # Column types

The declared types of columns and parameters.
-/
namespace DmlCompiler

inductive ColumnType where
  | boolean
  | smallInt
  | integer
  | bigInt
  | real
  | double
  | decimal
  | varChar
  | text
  | uuid
  | date
  | timestamp
  | json
  | binary
deriving DecidableEq, Repr, Inhabited

namespace ColumnType

def all : List ColumnType := [.boolean, .smallInt, .integer, .bigInt, .real, .double, .decimal,
  .varChar, .text, .uuid, .date, .timestamp, .json, .binary]

def name : ColumnType → String
  | .boolean => "Boolean"
  | .smallInt => "SmallInt"
  | .integer => "Integer"
  | .bigInt => "BigInt"
  | .real => "Real"
  | .double => "Double"
  | .decimal => "Decimal"
  | .varChar => "VarChar"
  | .text => "Text"
  | .uuid => "Uuid"
  | .date => "Date"
  | .timestamp => "Timestamp"
  | .json => "Json"
  | .binary => "Binary"

def sql : ColumnType → String
  | .boolean => "BOOLEAN"
  | .smallInt => "SMALLINT"
  | .integer => "INTEGER"
  | .bigInt => "BIGINT"
  | .real => "REAL"
  | .double => "DOUBLE PRECISION"
  | .decimal => "NUMERIC"
  | .varChar => "VARCHAR"
  | .text => "TEXT"
  | .uuid => "UUID"
  | .date => "DATE"
  | .timestamp => "TIMESTAMP WITH TIME ZONE"
  | .json => "JSONB"
  | .binary => "BYTEA"

def width? : ColumnType → Option UInt32
  | .boolean => some 1
  | .smallInt => some 2
  | .integer | .real | .date => some 4
  | .bigInt | .double | .timestamp => some 8
  | .uuid => some 16
  | .decimal | .varChar | .text | .json | .binary => none

def ofName? (name : String) : Option ColumnType := all.find? (·.name == name)

end ColumnType
end DmlCompiler
