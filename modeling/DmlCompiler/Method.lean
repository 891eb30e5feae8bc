/-! # Methods

The calls that a query can record, by name. Entities are type arguments of a method, everything
else is an argument.
-/
namespace DmlCompiler

inductive Method where
  | select
  | selectDistinct
  | selectLimit
  | selectPropertiesLimit
  | from
  | join
  | filter
  | groupBy
  | having
  | orderBy
  | insert
  | values
  | valuesRecord
  | update
  | set
  | delete
  | truncate
  | union
  | unionAll
deriving DecidableEq, Repr, Inhabited

namespace Method

def all : List Method := [.select, .selectDistinct, .selectLimit, .selectPropertiesLimit, .from,
  .join, .filter, .groupBy, .having, .orderBy, .insert, .values, .valuesRecord, .update, .set,
  .delete, .truncate, .union, .unionAll]

def name : Method → String
  | .select => "Select"
  | .selectDistinct => "SelectDistinct"
  | .selectLimit => "SelectLimit"
  | .selectPropertiesLimit => "SelectPropertiesLimit"
  | .from => "From"
  | .join => "Join"
  | .filter => "Filter"
  | .groupBy => "GroupBy"
  | .having => "Having"
  | .orderBy => "OrderBy"
  | .insert => "Insert"
  | .values => "Values"
  | .valuesRecord => "ValuesRecord"
  | .update => "Update"
  | .set => "Set"
  | .delete => "Delete"
  | .truncate => "Truncate"
  | .union => "Union"
  | .unionAll => "UnionAll"

def signature : Method → String
  | .select => "Select(properties)"
  | .selectDistinct => "SelectDistinct(properties)"
  | .selectLimit => "Select(limit)"
  | .selectPropertiesLimit => "Select(properties, limit)"
  | .from => "From<T>()"
  | .join => "Join<T>(join_type, on)"
  | .filter => "Filter(predicate)"
  | .groupBy => "GroupBy(properties)"
  | .having => "Having(predicate)"
  | .orderBy => "OrderBy(properties)"
  | .insert => "Insert<T>(properties)"
  | .values => "Values(values)"
  | .valuesRecord => "Values(record)"
  | .update => "Update<T>()"
  | .set => "Set(property, operation)"
  | .delete => "Delete<T>()"
  | .truncate => "Truncate<T>()"
  | .union => "Union()"
  | .unionAll => "UnionAll()"

def arity : Method → Nat
  | .from | .join | .insert | .update | .delete | .truncate => 1
  | _ => 0

def ofName? (name : String) : Option Method := all.find? (·.name == name)

end Method

inductive ArgumentKind where
  | properties
  | predicate
  | values
  | record
  | limit
  | joinType
  | assignment
deriving DecidableEq, Repr, Inhabited

def ArgumentKind.name : ArgumentKind → String
  | .properties => "properties"
  | .predicate => "predicate"
  | .values => "values"
  | .record => "record"
  | .limit => "limit"
  | .joinType => "join type"
  | .assignment => "assignment"

end DmlCompiler
