import DmlCompiler.Draft
import DmlCompiler.Sql.Renaming

/-! # Fragments of SQL

The text of expressions. A column is wrapped into its functions; a condition is a comparison of
it; a predicate is a condition followed by those of its children, each behind its connective. The
values go into parameters. Every function here takes the compiler of sub-queries as `compile`.
-/
namespace DmlCompiler

def Dialect.wholeLength? (d : Dialect) (inner : Sql) : Option Sql :=
  if d.needsLength then some (Sql.ofString "LEN(" ++ inner ++ Sql.ofString ")") else none

def Function.wholeLength (f : Function) (dialect : Dialect) (inner : Sql) : Sql :=
  match dialect.wholeLength? inner with
  | some length =>
    if f.kind = .substring ∧ f.params.length = 1 then Sql.ofString f.kind.separator ++ length
    else []
  | none => []

/-- A function around its argument. Its further arguments have no column to take a type from. -/
def Function.apply (f : Function) (inner : Sql) : Build Sql := do
  let dialect := (← get).dialect
  let opening := dialect.opening f.kind
  let separator := Sql.ofString f.kind.separator
  let params ← f.params.mapM fun value => return separator ++ (← Build.bindValue none value)
  let closing := List.replicate (openParentheses opening) (Symbol.char ')')
  return Sql.ofString opening ++ inner ++ params.flatten ++ f.wholeLength dialect inner ++ closing

def SubQuery.finish (compile : Query → Build Command) : SubQuery → Build Command
  | .command finished => return finished
  | .deferred query => Build.inChild (compile query)

/-- The text of a finished statement inside of another one, its parameters added to those of the
other. Only a select can stand there. -/
def Command.inline (c : Command) : Build Sql := do
  if c.kind ≠ .select then throw (.unsupported (.notASelect c.kind))
  let renames ← c.parameters.mapM fun p =>
    return (p.name, ← Build.addParameter p.value p.type p.size)
  return Sql.ofFinished renames c.sql

def SubQuery.inline (compile : Query → Build Command) (q : SubQuery) : Build Sql := do
  (← q.finish compile).inline

namespace Expression

def base (x : Expression) : Build Sql :=
  if x.isWildcard then return Sql.ofString wildcardName
  else match x.column with
    | some column => return Sql.ofString column.sql
    | none => throw (.metadataResolution x.entity x.property)

def reference (x : Expression) : Build Sql := do
  x.functions.foldlM (fun inner f => f.apply inner) (← x.base)

/-- The column whose type the values compared with take: the result of a function has none. -/
def typed (x : Expression) : Option ColumnRef := if x.functions.isEmpty then x.column else none

/-- An entry of a list; a sub-query that stands alone needs no parentheses of its own. -/
def operand (compile : Query → Build Command) (x : Expression) (alone : Bool) :
    Operand → Build Sql
  | .value value => Build.bindValue x.typed value
  | .subQuery q => do
    let sql ← q.inline compile
    return if alone then sql else sql.parenthesize

def rightSide (compile : Query → Build Command) (x : Expression) (operator : Operator) :
    Build Sql := do
  let missing : QueryError := .emptyArgument x.property operator
  match x.argument with
  | some (.property other) => other.reference
  | some (.range low high) =>
    if operator.isRange then
      let low ← Build.bindValue x.typed low
      let high ← Build.bindValue x.typed high
      return low ++ Sql.ofString " AND " ++ high
    else throw missing
  | some (.list operands) =>
    if operator.isMembership ∧ operands ≠ [] then
      let items ← operands.mapM (x.operand compile (operands.length == 1))
      return (Sql.join ", " items).parenthesize
    else throw missing
  | some (.value value) =>
    if operator.isRange ∨ operator.isMembership then throw missing
    else Build.bindValue x.typed value
  | none => throw missing

def condition (compile : Query → Build Command) (x : Expression) : Build Sql := do
  if x.isEmpty then return []
  let left ← x.reference
  match x.operator with
  | none => return left
  | some operator =>
    let head := left ++ Sql.ofString s!" {operator.sql}"
    if operator.isNullCheck then return head
    return head ++ Sql.ofString " " ++ (← x.rightSide compile operator)

def grouped (x : Expression) (sql : Sql) : Sql :=
  if x.children.isEmpty || x.negated || sql.isEmpty then sql else sql.parenthesize

/-- Adds the text of a child to what precedes it. -/
def joined (x : Expression) (before sql : Sql) : Sql :=
  if sql.isEmpty then before
  else if before.isEmpty then sql
  else before ++ Sql.ofString s!" {(x.connective.getD .and).sql} " ++ sql

mutual

/-- The expression and its children; a negation concerns all of them. -/
def predicate (compile : Query → Build Command) : Expression → Build Sql
  | x@⟨_, _, _, _, _, _, _, _, negated, _, children⟩ => do
    let sql ← appendChildren compile (← x.condition compile) children
    return if negated && !sql.isEmpty then Sql.ofString "NOT " ++ sql.parenthesize else sql

def appendChildren (compile : Query → Build Command) (before : Sql) :
    List Expression → Build Sql
  | [] => return before
  | child :: rest => do
    let sql ← child.predicate compile
    appendChildren compile (child.joined before (child.grouped sql)) rest

end

theorem predicate_eq (compile : Query → Build Command) (x : Expression) :
    x.predicate compile = (do
      let sql ← appendChildren compile (← x.condition compile) x.children
      return if x.negated && !sql.isEmpty then Sql.ofString "NOT " ++ sql.parenthesize else sql) := by
  cases x
  rw [predicate]

def checkPermission (x : Expression) (kind : StatementKind) : Build Unit :=
  match x.column with
  | some column =>
    if column.permissions.allows kind then return () else throw (.permissionDenied x.path kind)
  | none => return ()

def projection (compile : Query → Build Command) (x : Expression) : Build Sql := do
  x.checkPermission .select
  let sql ← x.condition compile
  match x.label with
  | none => return sql
  | some label =>
    match Identifier.checkShape label with
    | .ok () => return sql ++ Sql.ofString s!" AS {label}"
    | .error cause => throw (.validation cause)

end Expression
end DmlCompiler
