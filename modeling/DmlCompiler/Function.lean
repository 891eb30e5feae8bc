import DmlCompiler.SqlValue

/-! # Functions

Functions applied to a column: aggregates, text functions, and arithmetic with a constant.
-/
namespace DmlCompiler

inductive FunctionKind where
  | count
  | countDistinct
  | avg
  | min
  | max
  | sum
  | length
  | upper
  | lower
  | trim
  | trimStart
  | trimEnd
  | substring
  | add
  | subtract
  | multiply
  | divide
deriving DecidableEq, Repr, Inhabited

namespace FunctionKind

def all : List FunctionKind := [.count, .countDistinct, .avg, .min, .max, .sum, .length, .upper,
  .lower, .trim, .trimStart, .trimEnd, .substring, .add, .subtract, .multiply, .divide]

def name : FunctionKind → String
  | .count => "Count"
  | .countDistinct => "CountDistinct"
  | .avg => "Avg"
  | .min => "Min"
  | .max => "Max"
  | .sum => "Sum"
  | .length => "Length"
  | .upper => "Upper"
  | .lower => "Lower"
  | .trim => "Trim"
  | .trimStart => "TrimStart"
  | .trimEnd => "TrimEnd"
  | .substring => "Substring"
  | .add => "Add"
  | .subtract => "Subtract"
  | .multiply => "Multiply"
  | .divide => "Divide"

/-- The text before the argument in standard SQL. Every parenthesis in it is closed behind. -/
def opening : FunctionKind → String
  | .count => "COUNT("
  | .countDistinct => "COUNT(DISTINCT "
  | .avg => "AVG("
  | .min => "MIN("
  | .max => "MAX("
  | .sum => "SUM("
  | .length => "LENGTH("
  | .upper => "UPPER("
  | .lower => "LOWER("
  | .trim => "TRIM("
  | .trimStart => "LTRIM("
  | .trimEnd => "RTRIM("
  | .substring => "SUBSTR("
  | .add | .subtract | .multiply | .divide => "("

def symbol? : FunctionKind → Option String
  | .add => some "+"
  | .subtract => some "-"
  | .multiply => some "*"
  | .divide => some "/"
  | _ => none

def isAggregate : FunctionKind → Bool
  | .count | .countDistinct | .avg | .min | .max | .sum => true
  | _ => false

def separator (kind : FunctionKind) : String :=
  match kind.symbol? with
  | some symbol => s!" {symbol} "
  | none => ", "

def ofName? (name : String) : Option FunctionKind := all.find? (·.name == name)

end FunctionKind

/-- The parentheses to close behind an opening text. -/
def openParentheses (opening : String) : Nat := opening.toList.count '('

structure Function where
  kind : FunctionKind
  params : List SqlValue
deriving DecidableEq, Repr, Inhabited

end DmlCompiler
