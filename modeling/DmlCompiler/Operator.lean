/-! # Operators

Comparisons, the connectives between predicates, sort orders, and kinds of joins.
-/
namespace DmlCompiler

inductive Operator where
  | equal
  | notEqual
  | greaterThan
  | greaterThanOrEqual
  | lessThan
  | lessThanOrEqual
  | like
  | notLike
  | isIn
  | notIn
  | between
  | notBetween
  | isNull
  | isNotNull
deriving DecidableEq, Repr, Inhabited

namespace Operator

def all : List Operator := [.equal, .notEqual, .greaterThan, .greaterThanOrEqual, .lessThan,
  .lessThanOrEqual, .like, .notLike, .isIn, .notIn, .between, .notBetween, .isNull, .isNotNull]

def name : Operator → String
  | .equal => "Equal"
  | .notEqual => "NotEqual"
  | .greaterThan => "GreaterThan"
  | .greaterThanOrEqual => "GreaterThanOrEqual"
  | .lessThan => "LessThan"
  | .lessThanOrEqual => "LessThanOrEqual"
  | .like => "Like"
  | .notLike => "NotLike"
  | .isIn => "In"
  | .notIn => "NotIn"
  | .between => "Between"
  | .notBetween => "NotBetween"
  | .isNull => "IsNull"
  | .isNotNull => "IsNotNull"

def sql : Operator → String
  | .equal => "="
  | .notEqual => "<>"
  | .greaterThan => ">"
  | .greaterThanOrEqual => ">="
  | .lessThan => "<"
  | .lessThanOrEqual => "<="
  | .like => "LIKE"
  | .notLike => "NOT LIKE"
  | .isIn => "IN"
  | .notIn => "NOT IN"
  | .between => "BETWEEN"
  | .notBetween => "NOT BETWEEN"
  | .isNull => "IS NULL"
  | .isNotNull => "IS NOT NULL"

def isMembership : Operator → Bool
  | .isIn | .notIn => true
  | _ => false

def isRange : Operator → Bool
  | .between | .notBetween => true
  | _ => false

def isNullCheck : Operator → Bool
  | .isNull | .isNotNull => true
  | _ => false

def ofName? (name : String) : Option Operator := all.find? (·.name == name)

end Operator

inductive Connective where
  | and
  | or
deriving DecidableEq, Repr, Inhabited

namespace Connective

def name : Connective → String
  | .and => "And"
  | .or => "Or"

def sql : Connective → String
  | .and => "AND"
  | .or => "OR"

def ofName? (name : String) : Option Connective := [and, or].find? (·.name == name)

end Connective

inductive SortOrder where
  | ascending
  | descending
deriving DecidableEq, Repr, Inhabited

namespace SortOrder

def name : SortOrder → String
  | .ascending => "Asc"
  | .descending => "Desc"

def sql : SortOrder → String
  | .ascending => "ASC"
  | .descending => "DESC"

def ofName? (name : String) : Option SortOrder := [ascending, descending].find? (·.name == name)

end SortOrder

inductive JoinKind where
  | inner
  | left
  | right
  | full
  | cross
deriving DecidableEq, Repr, Inhabited

namespace JoinKind

def all : List JoinKind := [.inner, .left, .right, .full, .cross]

def name : JoinKind → String
  | .inner => "Inner"
  | .left => "Left"
  | .right => "Right"
  | .full => "Full"
  | .cross => "Cross"

def sql : JoinKind → String
  | .inner => "INNER JOIN"
  | .left => "LEFT OUTER JOIN"
  | .right => "RIGHT OUTER JOIN"
  | .full => "FULL OUTER JOIN"
  | .cross => "CROSS JOIN"

/-- All but the Cartesian product have an ON clause. -/
def takesPredicate : JoinKind → Bool
  | .cross => false
  | _ => true

def ofName? (name : String) : Option JoinKind := all.find? (·.name == name)

end JoinKind
end DmlCompiler
