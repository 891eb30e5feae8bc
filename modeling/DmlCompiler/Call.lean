import DmlCompiler.Draft.Fragment

/-! # Calls

A statement is written by a sequence of calls, and a call is a value, so that the same sequence
can be made on a draft or recorded as a query. `Call.make` is what a call does to a draft.
-/
namespace DmlCompiler

inductive Call where
  | select (properties : List Expression)
  | selectDistinct (properties : List Expression)
  | selectLimit (limit : UInt64)
  | selectPropertiesLimit (properties : List Expression) (limit : UInt64)
  | from (entity : Entity)
  | join (kind : JoinKind) (entity : Entity) (on : Option Expression)
  | filter (predicate : Expression)
  | groupBy (properties : List Expression)
  | having (predicate : Expression)
  | orderBy (properties : List Expression)
  | insert (entity : Entity) (properties : List Expression)
  | values (values : List SqlValue)
  | valuesRecord (record : Record)
  | update (entity : Entity)
  | set (property : Expression) (operation : UpdateOperation)
  | delete (entity : Entity)
  | truncate (entity : Entity)
  | union
  | unionAll
  | paginate (page : Page)

namespace Build

def checkPermission (e : Entity) (kind : StatementKind) : Build Unit :=
  if e.permissions.allows kind then return () else throw (.permissionDenied e.name kind)

/-- The entity of a statement that changes data has a table of its own. -/
def checkTarget (e : Entity) (kind : StatementKind) : Build Unit := do
  if e.isQueryResult then throw (.unsupported (.readOnlyEntity kind e.name))
  checkPermission e kind

def checkColumn (x : Expression) : Build Unit := do
  let target := ((← get).target.map (·.name)).getD ""
  if x.isEmpty ∨ x.entity ≠ target then throw (.metadataResolution target x.property)

def moveTo (clause : Clause) : Build Unit := modify fun d => { d with clause := clause }

def defaultList (e : Entity) : Build String := do
  let d ← get
  if d.options.cachesSelectLists then
    let (list, cache) := d.cache.fetch e
    set { d with cache := cache }
    return list
  else return e.selectList

/-- Renders a projection and counts it among the selected ones. -/
def select1 (compile : Query → Build Command) (x : Expression) : Build Sql := do
  let sql ← x.projection compile
  modify fun d => { d with selected := d.selected ++ [x] }
  return sql

/-- Keeps the row limit of a select, in the dialects that have one. -/
def limitRows : Option UInt64 → Build Unit
  | none => return ()
  | some limit => do
    let d ← get
    match d.dialect.rowLimitClause limit with
    | .ok _ => set { d with rowLimit := some limit }
    | .error e => throw e

def writeList : List Sql → Build Unit
  | [] => modify fun d => { d with listPending := true }
  | list => write (Sql.join ", " list)

def selectBlock (compile : Query → Build Command) (properties : List Expression)
    (distinct : Bool) (limit : Option UInt64) : Build Unit := do
  expect .select
  limitRows limit
  modify fun d => { d with kind := .select }
  write (Sql.ofString (if distinct then "SELECT DISTINCT " else "SELECT "))
  writeList (← (properties.filter (!·.isEmpty)).mapM (select1 compile))
  moveTo .select

/-- Writes the list that was left to the entity. -/
def writePendingList (e : Entity) : Build Unit := do
  if (← get).listPending then
    write (Sql.ofString (← defaultList e))
    modify fun d => { d with listPending := false }

def fromEntity (e : Entity) : Build Unit := do
  expect .from
  checkPermission e .select
  writePendingList e
  write (Sql.ofString s!" FROM {e.table}")
  modify fun d => { d with target := some e }
  moveTo .from

/-- The condition of a join. Only a Cartesian product has none. -/
def onClause (compile : Query → Build Command) (kind : JoinKind) (e : Entity)
    (on : Option Expression) : Build Sql :=
  let missing : QueryError := .unsupported (.joinWithoutPredicate kind e.table)
  if kind.takesPredicate then
    match on with
    | none => throw missing
    | some x => do
      let sql ← x.predicate compile
      if sql.isEmpty then throw missing else return Sql.ofString " ON " ++ sql
  else return []

def joinEntity (compile : Query → Build Command) (kind : JoinKind) (e : Entity)
    (on : Option Expression) : Build Unit := do
  expect .join
  checkPermission e .select
  let condition ← onClause compile kind e on
  write (Sql.ofString s!" {kind.sql} {e.table}" ++ condition)
  moveTo .join

/-- What stands before a condition: the keyword before the first one, then a connective. -/
def opener (keyword : String) (first : Bool) (x : Expression) : String :=
  if first then keyword
  else match x.connective with
    | some .or => " OR ("
    | _ => " AND ("

def addWhere (x : Expression) (sql : Sql) : Build Unit := do
  if !sql.isEmpty then
    let first := !(← get).whereOpen
    modify fun d => { d with whereOpen := true }
    write (Sql.ofString (opener " WHERE (" first x) ++ sql ++ Sql.ofString ")")

def filterBy (compile : Query → Build Command) (x : Expression) : Build Unit := do
  expect .where
  addWhere x (← x.predicate compile)
  moveTo .where

def addHaving (x : Expression) (sql : Sql) : Build Unit := do
  if !sql.isEmpty then
    let first := !(← get).havingOpen
    modify fun d => { d with havingOpen := true }
    write (Sql.ofString (opener " HAVING (" first x) ++ sql ++ Sql.ofString ")")

def havingBy (compile : Query → Build Command) (x : Expression) : Build Unit := do
  expect .having
  addHaving x (← x.predicate compile)
  moveTo .having

def nonEmptyList (clause : Clause) (list : List Sql) : Build Sql :=
  if list.isEmpty then throw (.unsupported (.emptyList clause)) else return Sql.join ", " list

def groupBy (properties : List Expression) : Build Unit := do
  expect .groupBy
  let list ← (properties.filter (!·.isEmpty)).mapM Expression.reference
  write (Sql.ofString " GROUP BY " ++ (← nonEmptyList .groupBy list))
  moveTo .groupBy

def sortKey (x : Expression) : Build Sql := do
  let sql ← x.reference
  match x.sort with
  | some order => return sql ++ Sql.ofString s!" {order.sql}"
  | none => return sql

def orderBy (properties : List Expression) : Build Unit := do
  expect .orderBy
  let list ← (properties.filter (!·.isEmpty)).mapM sortKey
  let list ← nonEmptyList .orderBy list
  let opener := if (← get).clause = .orderBy then ", " else " ORDER BY "
  write (Sql.ofString opener ++ list)
  moveTo .orderBy

/-- The columns of an insert. Without a list they are those of the entity that permit it. -/
def insertList (e : Entity) (properties : List Expression) : List Expression :=
  if properties.isEmpty then e.insertable.map (Expression.ofColumn e) else properties

def insertInto (e : Entity) (properties : List Expression) : Build Unit := do
  expect .insert
  checkTarget e .insert
  modify fun d => { d with target := some e }
  let columns := insertList e properties
  columns.forM fun x => do
    checkColumn x
    x.checkPermission .insert
  if columns.isEmpty then throw (.unsupported (.noInsertableColumns e.name))
  let names := columns.filterMap fun x => x.column.map (·.column)
  write (Sql.ofString s!"INSERT INTO {e.table} (" ++
    Sql.join ", " (names.map Sql.ofString) ++ Sql.ofString ")")
  modify fun d => { d with kind := .insert, insertColumns := columns }
  moveTo .insert

def appendRow (row : List SqlValue) : Build Unit := do
  let d ← get
  if row.length ≠ d.insertColumns.length then
    throw (.ordering (.valueCount row.length d.insertColumns.length))
  let list ← (row.zip d.insertColumns).mapM fun (value, x) => bindValue x.column value
  let opener := if d.clause = .values then ", " else " VALUES "
  write (Sql.ofString opener ++ (Sql.join ", " list).parenthesize)
  moveTo .values

def valuesRow (row : List SqlValue) : Build Unit := do
  expect .values
  appendRow row

/-- The value for a column: that of the first entry under the name of the property, of the column
or of the backing field. -/
def recordValue? (record : Record) (x : Expression) : Option SqlValue :=
  let names := [x.property, backingField x.property] ++ (x.column.map (·.column)).toList
  (record.find? fun entry => names.contains entry.1).map (·.2)

def valuesRecord (record : Record) : Build Unit := do
  expect .values
  let row ← (← get).insertColumns.mapM fun x =>
    orFail (recordValue? record x) (.ordering (.missingValue x.property))
  appendRow row

def beginWith (clause : Clause) (kind : StatementKind) (keyword : String) (e : Entity) :
    Build Unit := do
  expect clause
  checkTarget e kind
  write (Sql.ofString (keyword ++ e.table))
  modify fun d => { d with kind := kind, target := some e }
  moveTo clause

def setColumn (x : Expression) (operation : UpdateOperation) : Build Unit := do
  expect .set
  checkColumn x
  x.checkPermission .update
  let column ← orFail x.column (.metadataResolution x.entity x.property)
  let value ← bindValue (some column) operation.value
  let opener := if (← get).clause = .set then ", " else " SET "
  write (Sql.ofString opener ++ Sql.ofString (operation.assignment column.column) ++ value)
  moveTo .set

def unionWith (keyword : String) : Build Unit := do
  expect .union
  write (Sql.ofString keyword)
  modify fun d => { d with whereOpen := false, havingOpen := false, target := none }
  moveTo .union

end Build

def Call.make (compile : Query → Build Command) : Call → Build Unit
  | .select properties => Build.selectBlock compile properties false none
  | .selectDistinct properties => Build.selectBlock compile properties true none
  | .selectLimit limit => Build.selectBlock compile [] false (some limit)
  | .selectPropertiesLimit properties limit =>
    Build.selectBlock compile properties false (some limit)
  | .from entity => Build.fromEntity entity
  | .join kind entity on => Build.joinEntity compile kind entity on
  | .filter predicate => Build.filterBy compile predicate
  | .groupBy properties => Build.groupBy properties
  | .having predicate => Build.havingBy compile predicate
  | .orderBy properties => Build.orderBy properties
  | .insert entity properties => Build.insertInto entity properties
  | .values row => Build.valuesRow row
  | .valuesRecord record => Build.valuesRecord record
  | .update entity => Build.beginWith .update .update "UPDATE " entity
  | .set property operation => Build.setColumn property operation
  | .delete entity => Build.beginWith .delete .delete "DELETE FROM " entity
  | .truncate entity => Build.beginWith .truncate .truncate "TRUNCATE TABLE " entity
  | .union => Build.unionWith " UNION "
  | .unionAll => Build.unionWith " UNION ALL "
  | .paginate page => modify fun d => { d with page := some page }

namespace Draft

def limitText (d : Draft) : String :=
  match d.rowLimit with
  | some limit => Dialect.rowLimit limit
  | none => ""

/-- Where a page needs an order and none is given, the rows keep the order they have. -/
def pageText (d : Draft) : String :=
  match d.page with
  | some page =>
    let order :=
      if !page.isEmpty && d.clause ≠ .orderBy && d.dialect.needsOrder then
        " ORDER BY (SELECT NULL)"
      else ""
    order ++ d.dialect.pageClause page
  | none => ""

def finished (d : Draft) : Except QueryError Command :=
  if !d.clause.isComplete then .error (.ordering (.incomplete d.clause))
  else if d.rowLimit.isSome && d.page.isSome then .error (.unsupported .limitWithPage)
  else if d.page.isSome && d.kind ≠ .select then .error (.unsupported (.pageOn d.kind))
  else
    let text := d.sql ++ Sql.ofString d.limitText ++ Sql.ofString d.pageText
    .ok ⟨d.name, text.text d.dialect, d.parameters, d.kind, d.page⟩

end Draft

/-- The finished command; the draft stays as it is. -/
def Build.finish : Build Command := guarded do
  match (← get).finished with
  | .ok command => return command
  | .error e => throw e

end DmlCompiler
