import DmlCompiler.ColumnType
import DmlCompiler.StatementKind
import DmlCompiler.Text.Lowercase

/-! # Entities

An entity maps named properties to the columns of a table and says which statements may touch the
table and each column.
-/
namespace DmlCompiler

structure Permissions where
  select : Bool := true
  insert : Bool := true
  update : Bool := true
  delete : Bool := true
  truncate : Bool := true
deriving DecidableEq, Repr, Inhabited

namespace Permissions

def all : Permissions := {}

def readOnly : Permissions := ⟨true, false, false, false, false⟩

/-- A statement of unknown kind is never allowed. -/
def allows (p : Permissions) : StatementKind → Bool
  | .select => p.select
  | .insert => p.insert
  | .update => p.update
  | .delete => p.delete
  | .truncate => p.truncate
  | .unknown => false

end Permissions

inductive EntityKind where
  /-- A table or a view. -/
  | table
  /-- Rows of any result: read only, without declared columns. -/
  | queryResult
deriving DecidableEq, Repr, Inhabited

def EntityKind.name : EntityKind → String
  | .table => "Table"
  | .queryResult => "QueryResult"

structure Column where
  property : String
  column : String
  type : ColumnType
  size : Option UInt32 := none
  permissions : Permissions := {}
  primaryKey : Bool := false
deriving DecidableEq, Repr, Inhabited

structure Entity where
  name : String
  table : String
  kind : EntityKind := .table
  permissions : Permissions := {}
  columns : List Column := []
deriving DecidableEq, Repr, Inhabited

/-- The spelling of the field behind a property: an underscore and the property with its first
character in lower case. -/
def backingField (property : String) : String := "_" ++ Text.uncapitalize property

structure ColumnRef where
  table : String
  column : String
  type : ColumnType
  size : Option UInt32
  permissions : Permissions
deriving DecidableEq, Repr, Inhabited

def ColumnRef.sql (c : ColumnRef) : String := c.table ++ "." ++ c.column

namespace Entity

/-- The column of a property, by the property's own spelling or else by that of its backing
field. -/
def column? (e : Entity) (property : String) : Option Column :=
  e.columns.find? (·.property == property) <|>
    e.columns.find? (·.property == backingField property)

def ref (e : Entity) (c : Column) : ColumnRef :=
  ⟨e.table, c.column, c.type, c.size, c.permissions⟩

def isQueryResult (e : Entity) : Bool := e.kind = .queryResult

def insertable (e : Entity) : List Column := e.columns.filter (·.permissions.insert)

def selectable (e : Entity) : List Column := e.columns.filter (·.permissions.select)

def selectList (e : Entity) : String :=
  if e.isQueryResult || e.selectable.isEmpty then "*"
  else ", ".intercalate (e.selectable.map fun c => (e.ref c).sql)

def queryResult : Entity where
  name := "QueryResult"
  table := "QueryResult"
  kind := .queryResult
  permissions := .readOnly

end Entity
end DmlCompiler
