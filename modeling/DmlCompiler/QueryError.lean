import DmlCompiler.Clause
import DmlCompiler.Dialect
import DmlCompiler.Identifier
import DmlCompiler.Method
import DmlCompiler.Operator
import DmlCompiler.StatementKind

/-! # Errors of a query

Each error is its cause; `QueryError.message` words it.
-/
namespace DmlCompiler

inductive OrderingError where
  | cannotFollow (next current : Clause)
  | incomplete (clause : Clause)
  | valueCount (values columns : Nat)
  | missingValue (property : String)
deriving DecidableEq, Repr

inductive UnsupportedError where
  | parameterLimit (limit : Nat)
  | noRowLimit (dialect : Dialect) (limit : UInt64)
  | limitWithPage
  | pageOn (kind : StatementKind)
  | joinWithoutPredicate (kind : JoinKind) (table : String)
  | emptyList (clause : Clause)
  | readOnlyEntity (kind : StatementKind) (entity : String)
  | noInsertableColumns (entity : String)
  | notASelect (kind : StatementKind)
deriving DecidableEq, Repr

inductive MethodError where
  | notAvailable (dialect : Dialect)
  | typeArguments (expected found : Nat)
  | notRegistered (entity : String)
  | missingType (position : Nat)
  | missingArgument (expected : ArgumentKind) (position : Nat)
  | wrongArgument (position : Nat) (expected found : ArgumentKind)
deriving DecidableEq, Repr

inductive QueryError where
  | metadataResolution (entity property : String)
  | unknownEntity (name : String)
  | emptyArgument (property : String) (operator : Operator)
  | ordering (cause : OrderingError)
  | unsupported (cause : UnsupportedError)
  | permissionDenied (entity : String) (operation : StatementKind)
  | methodResolution (method : Method) (cause : MethodError)
  | validation (cause : IdentifierError)
  | unknownDialect (name : String)
  | serialization
deriving DecidableEq, Repr

def OrderingError.message : OrderingError → String
  | .cannotFollow .values _ => "Values() called before Insert()"
  | .cannotFollow .set _ => "Set() called before Update()"
  | .cannotFollow next current => s!"{next.name} cannot follow {current.name}"
  | .incomplete .select => "Select() must be followed by From()"
  | .incomplete .union => "Union() must be followed by Select()"
  | .incomplete .insert => "Insert() must be followed by Values()"
  | .incomplete .update => "Update() must be followed by Set()"
  | .incomplete clause => s!"ToCommand() called on {clause.name}"
  | .valueCount values columns => s!"Values() received {values} values for {columns} columns"
  | .missingValue property => s!"Values() record has no value for '{property}'"

def UnsupportedError.message : UnsupportedError → String
  | .parameterLimit limit => s!"command exceeds the configured limit of {limit} parameters"
  | .noRowLimit dialect limit =>
    s!"the {dialect.name} dialect has no row limit for {limit.toNat} rows; use Pagination instead"
  | .limitWithPage => "a row limit cannot be combined with Pagination"
  | .pageOn kind => s!"Pagination does not apply to {kind.name} commands"
  | .joinWithoutPredicate kind table => s!"{kind.sql} {table} requires an ON predicate"
  | .emptyList clause => s!"{clause.name} needs at least one property"
  | .readOnlyEntity kind entity => s!"{kind.name} is not supported on {entity}"
  | .noInsertableColumns entity => s!"{entity} has no insertable columns"
  | .notASelect kind => s!"a {kind.name} command cannot be used as a sub-query"

def MethodError.message : MethodError → String
  | .notAvailable dialect => s!"not available for the {dialect.name} dialect"
  | .typeArguments expected found => s!"expected {expected} type arguments, found {found}"
  | .notRegistered entity => s!"'{entity}' is not a registered entity"
  | .missingType position => s!"missing type argument {position}"
  | .missingArgument expected position =>
    s!"missing {expected.name} argument at position {position}"
  | .wrongArgument position expected found =>
    s!"argument {position} should be {expected.name}, found {found.name}"

def QueryError.message : QueryError → String
  | .metadataResolution entity property =>
    s!"Metadata resolution error: '{property}' does not map to a column of '{entity}'"
  | .unknownEntity name => s!"Unknown entity: {name}"
  | .emptyArgument property operator =>
    s!"Empty argument: {operator.sql} on '{property}' needs at least one value"
  | .ordering cause => s!"Ordering error: {cause.message}"
  | .unsupported cause => s!"Unsupported operation: {cause.message}"
  | .permissionDenied entity operation =>
    s!"Permission denied: {operation.name} is not allowed on '{entity}'"
  | .methodResolution method cause =>
    s!"Method resolution error: {method.signature}: {cause.message}"
  | .validation cause => s!"Validation error: {cause.message}"
  | .unknownDialect name => s!"Unknown dialect: {name}"
  | .serialization => "Serialization error"

def Dialect.rowLimitClause (d : Dialect) (limit : UInt64) : Except QueryError String :=
  if d.hasRowLimit then .ok (rowLimit limit) else .error (.unsupported (.noRowLimit d limit))

end DmlCompiler
