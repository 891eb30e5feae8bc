import DmlCompiler.Function
import DmlCompiler.Page

/-! # SQL dialects

The dialects agree on statements and differ in the names of parameters, in some function names,
and in how a row limit or a page is written.
-/
namespace DmlCompiler

inductive Dialect where
  | standard
  | sqlServer
  | mySql
  | postgres
deriving DecidableEq, Repr, Inhabited

namespace Dialect

def all : List Dialect := [.standard, .sqlServer, .mySql, .postgres]

def name : Dialect → String
  | .standard => "standard"
  | .sqlServer => "sqlserver"
  | .mySql => "mysql"
  | .postgres => "postgres"

def title : Dialect → String
  | .standard => "Standard"
  | .sqlServer => "SqlServer"
  | .mySql => "MySql"
  | .postgres => "Postgres"

/-- ASCII letters may be of either case. -/
def ofName? (name : String) : Option Dialect := all.find? (·.name == name.toLower)

def marker : Dialect → String
  | .standard | .sqlServer => "@p"
  | .mySql => "?"
  | .postgres => "$"

def parameterName (d : Dialect) (number : Nat) : String := d.marker ++ toString number

def opening : Dialect → FunctionKind → String
  | .sqlServer, .length => "LEN("
  | .sqlServer, .substring => "SUBSTRING("
  | .sqlServer, .trim => "LTRIM(RTRIM("
  | .mySql, .substring => "SUBSTRING("
  | _, kind => kind.opening

/-- Whether a substring without a length is given one, the length of the whole text. -/
def needsLength (d : Dialect) : Bool := d = .sqlServer

def needsOrder (d : Dialect) : Bool := d = .sqlServer

def hasRowLimit : Dialect → Bool
  | .mySql | .postgres => true
  | .standard | .sqlServer => false

def rowLimit (limit : UInt64) : String := s!" LIMIT {limit.toNat}"

def fetchNext : Option UInt64 → String
  | some limit => s!" FETCH NEXT {limit.toNat} ROWS ONLY"
  | none => ""

/-- The clause for a page; the offset is always written. -/
def offsetFetch (p : Page) : String :=
  if p.isEmpty then ""
  else s!" OFFSET {(p.offset.getD 0).toNat} ROWS" ++ fetchNext p.limit

/-- The clause for a page; `fill` stands for the limit where an offset must not stand alone. -/
def limitOffset (fill : Option UInt64) (p : Page) : String :=
  let limit := match p.limit, fill with
    | some limit, _ => rowLimit limit
    | none, some fill => if p.offset.isSome then rowLimit fill else ""
    | none, none => ""
  let offset := match p.offset with
    | some offset => s!" OFFSET {offset.toNat}"
    | none => ""
  limit ++ offset

/-- MySQL knows no offset without a limit, so that the greatest limit stands in. -/
def pageClause : Dialect → Page → String
  | .standard, p | .sqlServer, p => offsetFetch p
  | .mySql, p => limitOffset (some 18446744073709551615) p
  | .postgres, p => limitOffset none p

end Dialect
end DmlCompiler
