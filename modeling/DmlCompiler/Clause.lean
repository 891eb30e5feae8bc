/-! # Clauses

The position of a statement under construction, and the grammar of statements as a table: which
clauses may stand before each clause, and at which clauses a statement is complete.
-/
namespace DmlCompiler

inductive Clause where
  | start
  | select
  | from
  | join
  | where
  | groupBy
  | having
  | orderBy
  | union
  | insert
  | values
  | update
  | set
  | delete
  | truncate
deriving DecidableEq, Repr, Inhabited

namespace Clause

def name : Clause → String
  | .start => "an empty command"
  | .select => "Select()"
  | .from => "From()"
  | .join => "Join()"
  | .where => "Filter()"
  | .groupBy => "GroupBy()"
  | .having => "Having()"
  | .orderBy => "OrderBy()"
  | .union => "Union()"
  | .insert => "Insert()"
  | .values => "Values()"
  | .update => "Update()"
  | .set => "Set()"
  | .delete => "Delete()"
  | .truncate => "Truncate()"

def predecessors : Clause → List Clause
  | .start => []
  | .select => [.start, .union]
  | .from => [.select]
  | .join => [.from, .join]
  | .where => [.from, .join, .where, .set, .delete]
  | .groupBy => [.from, .join, .where]
  | .having => [.groupBy, .having]
  | .orderBy => [.from, .join, .where, .groupBy, .having, .orderBy]
  | .union => [.from, .join, .where, .groupBy, .having]
  | .insert | .update | .delete | .truncate => [.start]
  | .values => [.insert, .values]
  | .set => [.update, .set]

def mayFollow (next current : Clause) : Bool := next.predecessors.contains current

def isComplete : Clause → Bool
  | .start | .select | .union | .insert | .update => false
  | _ => true

end Clause
end DmlCompiler
