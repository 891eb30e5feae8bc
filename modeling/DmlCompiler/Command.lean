import DmlCompiler.Page
import DmlCompiler.SqlValue
import DmlCompiler.StatementKind

/-! # Commands

A finished statement: its text and the parameters bound to it, in order.
-/
namespace DmlCompiler

structure Parameter where
  name : String
  value : SqlValue
  type : Option ColumnType := none
  size : Option UInt32 := none
deriving DecidableEq, Repr, Inhabited

structure Command where
  name : String
  sql : String
  parameters : List Parameter
  kind : StatementKind
  page : Option Page
deriving DecidableEq, Repr, Inhabited

namespace Command

def anonymous : String := "00000000-0000-0000-0000-000000000000"

def parameter? (c : Command) (name : String) : Option Parameter :=
  c.parameters.find? (·.name == name)

end Command
end DmlCompiler
