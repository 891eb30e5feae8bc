import DmlCompiler.Dialect

/-! # SQL text with places for parameters

While a statement is written its parameters are known by number only; the dialect names them when
the text is finished.
-/
namespace DmlCompiler

inductive Symbol where
  | char (c : Char)
  /-- The place of the parameter with this number. -/
  | place (number : Nat)
deriving DecidableEq, Repr

abbrev Sql := List Symbol

namespace Sql

def ofString (s : String) : Sql := s.toList.map .char

instance : Coe String Sql := ⟨ofString⟩

def symbolChars (d : Dialect) : Symbol → List Char
  | .char c => [c]
  | .place number => (d.parameterName number).toList

def text (d : Dialect) (sql : Sql) : String := String.ofList (sql.flatMap (symbolChars d))

def join (separator : String) (fragments : List Sql) : Sql :=
  (ofString separator).intercalate fragments

def parenthesize (sql : Sql) : Sql := ofString "(" ++ sql ++ ofString ")"

end Sql
end DmlCompiler
