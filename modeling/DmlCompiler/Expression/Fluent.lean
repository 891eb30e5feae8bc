import DmlCompiler.Entity.Registry
import DmlCompiler.Expression

/-! # Composing expressions

Each function takes an expression and gives it a comparison, a function, a place in the result, or
further predicates. Only a membership in no values at all is refused.
-/
namespace DmlCompiler.Expression

def ofEntity (e : Entity) (property : String) : Except QueryError Expression :=
  match ofProperty? e property with
  | some x => .ok x
  | none => .error (.metadataResolution e.name property)

def resolve (r : Registry) (entity property : String) : Except QueryError Expression := do
  ofEntity (← r.entity entity) property

def compare (x : Expression) (operator : Operator) (argument : Argument) : Expression :=
  { x with operator := some operator, argument := some argument }

def equal (x : Expression) (v : SqlValue) : Expression := x.compare .equal (.value v)
def notEqual (x : Expression) (v : SqlValue) : Expression := x.compare .notEqual (.value v)
def greaterThan (x : Expression) (v : SqlValue) : Expression := x.compare .greaterThan (.value v)
def greaterThanOrEqual (x : Expression) (v : SqlValue) : Expression :=
  x.compare .greaterThanOrEqual (.value v)
def lessThan (x : Expression) (v : SqlValue) : Expression := x.compare .lessThan (.value v)
def lessThanOrEqual (x : Expression) (v : SqlValue) : Expression :=
  x.compare .lessThanOrEqual (.value v)

def between (x : Expression) (low high : SqlValue) : Expression :=
  x.compare .between (.range low high)
def notBetween (x : Expression) (low high : SqlValue) : Expression :=
  x.compare .notBetween (.range low high)

def membership (x : Expression) (operator : Operator) (operands : List Operand) :
    Except QueryError Expression :=
  if operands.isEmpty then .error (.emptyArgument x.property operator)
  else .ok (x.compare operator (.list operands))

def isInOperands (x : Expression) (operands : List Operand) : Except QueryError Expression :=
  x.membership .isIn operands
def notInOperands (x : Expression) (operands : List Operand) : Except QueryError Expression :=
  x.membership .notIn operands
def isInValues (x : Expression) (values : List SqlValue) : Except QueryError Expression :=
  x.isInOperands (values.map .value)
def notInValues (x : Expression) (values : List SqlValue) : Except QueryError Expression :=
  x.notInOperands (values.map .value)
def isInSubQuery (x : Expression) (q : SubQuery) : Expression :=
  x.compare .isIn (.list [.subQuery q])
def notInSubQuery (x : Expression) (q : SubQuery) : Expression :=
  x.compare .notIn (.list [.subQuery q])

def like (x : Expression) (pattern : String) : Expression :=
  x.compare .like (.value (.text pattern))
def notLike (x : Expression) (pattern : String) : Expression :=
  x.compare .notLike (.value (.text pattern))
def contains (x : Expression) (text : String) : Expression := x.like s!"%{text}%"
def startsWith (x : Expression) (text : String) : Expression := x.like s!"{text}%"
def endsWith (x : Expression) (text : String) : Expression := x.like s!"%{text}"

def isNull (x : Expression) : Expression := { x with operator := some .isNull, argument := none }
def isNotNull (x : Expression) : Expression :=
  { x with operator := some .isNotNull, argument := none }

def compareProperty (x : Expression) (operator : Operator) (other : Expression) : Expression :=
  x.compare operator (.property other)
def equalProperty (x other : Expression) : Expression := x.compareProperty .equal other

def apply (x : Expression) (kind : FunctionKind) (params : List SqlValue) : Expression :=
  { x with functions := x.functions ++ [⟨kind, params⟩] }

/-- The rest from a position that counts from one, cut to a length if there is one. -/
def substring (x : Expression) (start : Int64) (length : Option Int64) : Expression :=
  x.apply .substring (.bigInt start :: (length.map .bigInt).toList)

def arithmetic (x : Expression) (kind : FunctionKind) (number : Binary64) : Expression :=
  x.apply kind [.float number]

def named (x : Expression) (label : String) : Expression := { x with label := some label }
def sorted (x : Expression) (order : SortOrder) : Expression := { x with sort := some order }

def and (x other : Expression) : Expression :=
  { x with children := x.children ++ [{ other with connective := some .and }] }
def or (x other : Expression) : Expression :=
  { x with children := x.children ++ [{ other with connective := some .or }] }

def joinedBy (x : Expression) (c : Connective) : Expression := { x with connective := some c }

/-- Negates the expression together with its children; twice is not at all. -/
def not (x : Expression) : Expression := { x with negated := !x.negated }

end DmlCompiler.Expression
