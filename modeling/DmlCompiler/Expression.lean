import DmlCompiler.Command
import DmlCompiler.Entity
import DmlCompiler.Function
import DmlCompiler.Method
import DmlCompiler.Operator
import DmlCompiler.SqlValue.Record

/-! # Expressions and queries

An expression is a test of one column, or a projection, or a sort key, with further predicates
composed onto it. Its argument may hold sub-queries, and a sub-query may be a recorded query, so
that expressions and queries are one recursive type.
-/
namespace DmlCompiler

inductive UpdateOperation where
  | set (value : SqlValue)
  | increment (value : SqlValue)
  | decrement (value : SqlValue)
  | multiply (value : SqlValue)
  | divide (value : SqlValue)
deriving DecidableEq, Repr, Inhabited

namespace UpdateOperation

def value : UpdateOperation → SqlValue
  | .set v | .increment v | .decrement v | .multiply v | .divide v => v

def symbol? : UpdateOperation → Option String
  | .set _ => none
  | .increment _ => some "+"
  | .decrement _ => some "-"
  | .multiply _ => some "*"
  | .divide _ => some "/"

def assignment (operation : UpdateOperation) (column : String) : String :=
  match operation.symbol? with
  | none => s!"{column} = "
  | some symbol => s!"{column} = {column} {symbol} "

end UpdateOperation

mutual

inductive Argument where
  | value (value : SqlValue)
  | range (low high : SqlValue)
  | list (operands : List Operand)
  /-- Another column, as in the predicate of a join. -/
  | property (other : Expression)

inductive Operand where
  | value (value : SqlValue)
  | subQuery (query : SubQuery)

/-- A statement compiled before, or a query to compile where it stands. -/
inductive SubQuery where
  | command (command : Command)
  | deferred (query : Query)

structure Expression where
  entity : String
  property : String
  column : Option ColumnRef
  operator : Option Operator
  argument : Option Argument
  functions : List Function
  /-- The alias, the name of the column in the result. -/
  label : Option String
  /-- How it is joined to what precedes it. -/
  connective : Option Connective
  negated : Bool
  sort : Option SortOrder
  children : List Expression

inductive CallArgument where
  | properties (properties : List Expression)
  | predicate (predicate : Expression)
  | values (values : List SqlValue)
  | record (record : Record)
  | limit (limit : UInt64)
  | joinKind (kind : JoinKind)
  | assignment (property : Expression) (operation : UpdateOperation)

structure RecordedCall where
  method : Method
  /-- Names of entities. -/
  typeArguments : List String
  arguments : List CallArgument

/-- Recorded calls, to be compiled for any dialect. -/
structure Query where
  calls : List RecordedCall
  page : Option Page

end

namespace CallArgument

def kind : CallArgument → ArgumentKind
  | .properties _ => .properties
  | .predicate _ => .predicate
  | .values _ => .values
  | .record _ => .record
  | .limit _ => .limit
  | .joinKind _ => .joinType
  | .assignment _ _ => .assignment

end CallArgument

namespace Expression

def bare (entity property : String) (column : Option ColumnRef) : Expression where
  entity := entity
  property := property
  column := column
  operator := none
  argument := none
  functions := []
  label := none
  connective := none
  negated := false
  sort := none
  children := []

def ofColumn (e : Entity) (c : Column) : Expression := bare e.name c.property (some (e.ref c))

def ofProperty? (e : Entity) (property : String) : Option Expression :=
  (e.column? property).map (ofColumn e)

def wildcardName : String := "*"

def wildcard : Expression := bare "" wildcardName none

def group : Expression := bare "" "" none

def isWildcard (e : Expression) : Bool := e.property == wildcardName

/-- An empty expression adds nothing of its own to the SQL. -/
def isEmpty (e : Expression) : Bool := e.column.isNone && !e.isWildcard

def path (e : Expression) : String := e.entity ++ "." ++ e.property

end Expression

inductive ExpressionKind where
  | join
  | function
  | operator
deriving DecidableEq, Repr

def ExpressionKind.name : ExpressionKind → String
  | .join => "Join"
  | .function => "Function"
  | .operator => "Operator"

def Expression.kind (e : Expression) : ExpressionKind :=
  match e.argument with
  | some (.property _) => .join
  | _ => if e.functions.isEmpty then .operator else .function

instance : Inhabited Expression := ⟨.group⟩

instance : Inhabited Query := ⟨⟨[], none⟩⟩

end DmlCompiler
