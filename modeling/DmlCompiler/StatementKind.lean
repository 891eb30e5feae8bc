/-! # Kinds of statements -/
namespace DmlCompiler

/-- What a statement does to its table. A command that was never begun is of no known kind. -/
inductive StatementKind where
  | select
  | insert
  | update
  | delete
  | truncate
  | unknown
deriving DecidableEq, Repr, Inhabited

namespace StatementKind

def all : List StatementKind := [.select, .insert, .update, .delete, .truncate, .unknown]

def name : StatementKind → String
  | .select => "Select"
  | .insert => "Insert"
  | .update => "Update"
  | .delete => "Delete"
  | .truncate => "Truncate"
  | .unknown => "Unknown"

def ofName? (name : String) : Option StatementKind := all.find? (·.name == name)

end StatementKind
end DmlCompiler
