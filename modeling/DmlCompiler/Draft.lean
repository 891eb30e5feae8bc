import DmlCompiler.Entity.Registry
import DmlCompiler.Expression
import DmlCompiler.Sql

/-! # Drafts

A draft is a statement under construction. Its operations run in `Build`, which keeps the draft
also when an operation fails, so that what was written before the failure can still be seen. A
failure that concerns the draft is kept in it and answers every later call.
-/
namespace DmlCompiler

structure Options where
  /-- Whether the select list of an entity is kept and used again. -/
  cachesSelectLists : Bool := true
  /-- The most parameters of a command; zero is no limit. -/
  maxParameters : UInt64 := 0
  /-- Whether the names of registered entities are checked. -/
  validatesIdentifiers : Bool := true
deriving DecidableEq, Repr, Inhabited

abbrev SelectCache := List ((String × String) × String)

namespace SelectCache

def find? (cache : SelectCache) (e : Entity) : Option String :=
  (cache.lookup (e.name, e.table))

def contains (cache : SelectCache) (e : Entity) : Bool := (cache.find? e).isSome

/-- The list that is kept for the entity, or else its own one, which is then kept. -/
def fetch (cache : SelectCache) (e : Entity) : String × SelectCache :=
  match cache.find? e with
  | some list => (list, cache)
  | none => (e.selectList, ((e.name, e.table), e.selectList) :: cache)

end SelectCache

structure Draft where
  dialect : Dialect
  registry : Registry
  options : Options
  cache : SelectCache
  name : String := Command.anonymous
  /-- The text without a row limit or page at its end. -/
  sql : Sql := []
  parameters : List Parameter := []
  kind : StatementKind := .unknown
  /-- The properties in select lists. -/
  selected : List Expression := []
  clause : Clause := .start
  /-- A select list is missing until the entity is known. -/
  listPending : Bool := false
  target : Option Entity := none
  insertColumns : List Expression := []
  rowLimit : Option UInt64 := none
  page : Option Page := none
  whereOpen : Bool := false
  havingOpen : Bool := false
  /-- The text and the page of the command as it was last finished. -/
  lastFinished : String × Option Page := ("", none)
  /-- The failure of an earlier call. -/
  failure : Option QueryError := none

abbrev Build := ExceptT QueryError (StateM Draft)

namespace Draft

def new (dialect : Dialect) (registry : Registry) (options : Options) (cache : SelectCache) :
    Draft where
  dialect := dialect
  registry := registry
  options := options
  cache := cache

def child (d : Draft) : Draft := new d.dialect d.registry d.options d.cache

def isPoisoned (d : Draft) : Bool := d.failure.isSome

end Draft

namespace Build

/-- Runs an operation on a draft that has not failed; its failure becomes that of the draft. -/
def guarded {α : Type} (operation : Build α) : Build α := ExceptT.mk fun d =>
  match d.failure with
  | some e => (.error e, d)
  | none =>
    match operation.run d with
    | (.ok a, d) => (.ok a, d)
    | (.error e, d) => (.error e, { d with failure := some e })

/-- Runs an operation on a child draft, of which nothing is kept but the select lists. -/
def inChild {α : Type} (operation : Build α) : Build α := ExceptT.mk fun d =>
  let (result, child) := operation.run d.child
  (result, { d with cache := child.cache })

def write (sql : Sql) : Build Unit := modify fun d => { d with sql := d.sql ++ sql }

def orFail {α : Type} (found : Option α) (e : QueryError) : Build α :=
  match found with
  | some a => return a
  | none => throw e

/-- Fails unless the clause may follow the current one. -/
def expect (next : Clause) : Build Unit := do
  let d ← get
  if next.mayFollow d.clause then return () else throw (.ordering (.cannotFollow next d.clause))

def addParameter (value : SqlValue) (type : Option ColumnType) (size : Option UInt32) :
    Build Nat := do
  let d ← get
  let number := d.parameters.length + 1
  let limit := d.options.maxParameters.toNat
  if limit ≠ 0 ∧ limit < number then throw (.unsupported (.parameterLimit limit))
  let parameter : Parameter := ⟨d.dialect.parameterName number, value, type, size⟩
  set { d with parameters := d.parameters ++ [parameter] }
  return number

/-- The place of a new parameter, which has the type of the column, if there is one. -/
def bindValue (column : Option ColumnRef) (value : SqlValue) : Build Sql := do
  return [.place (← addParameter value (column.map (·.type)) (column.bind (·.size)))]

end Build
end DmlCompiler
