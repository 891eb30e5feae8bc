import DmlCompiler.Proofs.Parts
import DmlCompiler.Proofs.Values.Fragments

/-! # Calls do not look at values

Every call, recorded or made directly, does the same to a draft with other values, and so do
queries, down to their sub-queries. -/
namespace DmlCompiler

open Build

variable {f : SqlValue → SqlValue} {g : Ending → Ending}
  {h : String × Option Page → String × Option Page} {compile compile' : Query → Build Command}

namespace Build

theorem checkPermission_mirrors (e : Entity) (kind : StatementKind) :
    Mirrors (Draft.alter f g h) id (checkPermission e kind) (checkPermission e kind) :=
  .ite (mirrors_pure ()) (mirrors_throw _)

theorem checkTarget_mirrors (e : Entity) (kind : StatementKind) :
    Mirrors (Draft.alter f g h) id (checkTarget e kind) (checkTarget e kind) :=
  .ite (mirrors_throw_bind _ _ _) (checkPermission_mirrors e kind)

theorem checkColumn_mirrors (x : Expression) :
    Mirrors (Draft.alter f g h) id (checkColumn x) (checkColumn (x.mapValues f)) := by
  refine mirrors_get.bind fun d => ?_
  simp only [Draft.alter_target, Expression.mapValues_isEmpty, Expression.mapValues_entity,
    Expression.mapValues_property]
  exact .ite (mirrors_throw _) (mirrors_pure ())

theorem orFail_mirrors {α β : Type} {k : α → β} (found : Option α) (e : QueryError) :
    Mirrors (Draft.alter f g h) k (orFail found e) (orFail (found.map k) e) := by
  cases found with
  | none => exact mirrors_throw e
  | some a => exact mirrors_pure a

theorem defaultList_mirrors (e : Entity) :
    Mirrors (Draft.alter f g h) id (defaultList e) (defaultList e) := by
  refine mirrors_get.bind fun d => ?_
  simp only [Draft.alter_options, Draft.alter_cache]
  refine .ite ?_ (mirrors_pure _)
  exact (mirrors_set rfl).bind fun _ => mirrors_pure _

theorem select1_mirrors (hc : CompilesAlike f compile compile') (x : Expression) :
    Mirrors (Draft.alter f g h) id (select1 compile x) (select1 compile' (x.mapValues f)) := by
  refine (Expression.projection_mirrors hc x).bind fun sql => ?_
  refine (mirrors_modify fun d => ?_).bind fun _ => mirrors_pure sql
  simp [Draft.alter, Draft.ending]

theorem limitRows_mirrors {limit : Option UInt64}
    (ends : ∀ e : Ending, g (limit.or e.1, e.2) = (limit.or (g e).1, (g e).2)) :
    Mirrors (Draft.alter f g h) id (limitRows limit) (limitRows limit) := by
  cases limit with
  | none => exact mirrors_pure ()
  | some limit =>
    refine mirrors_get.bind fun d => ?_
    simp only [Draft.alter_dialect]
    cases d.dialect.rowLimitClause limit with
    | ok _ =>
      have kept : g (some limit, d.page) = (some limit, (g d.ending).2) := ends d.ending
      refine mirrors_set ?_
      simp only [Draft.alter, Draft.ending, kept]
    | error e => exact mirrors_throw e

theorem writeList_mirrors (list : List Sql) :
    Mirrors (Draft.alter f g h) id (writeList list) (writeList list) := by
  cases list with
  | nil => exact mirrors_modify fun _ => rfl
  | cons sql list => exact write_mirrors _

theorem filter_mapValues (xs : List Expression) :
    (xs.map (·.mapValues f)).filter (!·.isEmpty) =
      (xs.filter (!·.isEmpty)).map (·.mapValues f) := by
  rw [List.filter_map]
  congr 1
  exact List.filter_congr fun x _ => by simp

theorem selectBlock_mirrors (hc : CompilesAlike f compile compile') (properties : List Expression)
    (distinct : Bool) {limit : Option UInt64}
    (ends : ∀ e : Ending, g (limit.or e.1, e.2) = (limit.or (g e).1, (g e).2)) :
    Mirrors (Draft.alter f g h) id (selectBlock compile properties distinct limit)
      (selectBlock compile' (properties.map (·.mapValues f)) distinct limit) := by
  unfold selectBlock
  rw [filter_mapValues]
  refine (expect_mirrors .select).bind fun _ => ?_
  refine (limitRows_mirrors ends).bind fun _ => ?_
  refine Mirrors.bind (mirrors_modify fun _ => rfl) fun _ => ?_
  refine (write_mirrors _).bind fun _ => ?_
  refine (mirrors_mapM_same fun x _ => select1_mirrors hc x).bind fun list => ?_
  exact (writeList_mirrors list).bind fun _ => moveTo_mirrors .select

theorem writePendingList_mirrors (e : Entity) :
    Mirrors (Draft.alter f g h) id (writePendingList e) (writePendingList e) := by
  refine mirrors_get.bind fun d => ?_
  simp only [Draft.alter_listPending]
  refine .ite ?_ (mirrors_pure ())
  refine (defaultList_mirrors e).bind fun list => ?_
  exact (write_mirrors _).bind fun _ => mirrors_modify fun _ => rfl

theorem fromEntity_mirrors (e : Entity) :
    Mirrors (Draft.alter f g h) id (fromEntity e) (fromEntity e) := by
  refine (expect_mirrors .from).bind fun _ => ?_
  refine (checkPermission_mirrors e .select).bind fun _ => ?_
  refine (writePendingList_mirrors e).bind fun _ => ?_
  refine (write_mirrors _).bind fun _ => ?_
  exact Mirrors.bind (mirrors_modify fun _ => rfl) fun _ => moveTo_mirrors .from

theorem onClause_mirrors (hc : CompilesAlike f compile compile') (kind : JoinKind) (e : Entity)
    (on : Option Expression) : Mirrors (Draft.alter f g h) id (onClause compile kind e on)
      (onClause compile' kind e (on.map (·.mapValues f))) := by
  unfold onClause
  refine .ite ?_ (mirrors_pure _)
  cases on with
  | none => exact mirrors_throw _
  | some x =>
    refine (Expression.predicate_mirrors hc x).bind fun sql => ?_
    exact .ite (mirrors_throw _) (mirrors_pure _)

theorem joinEntity_mirrors (hc : CompilesAlike f compile compile') (kind : JoinKind) (e : Entity)
    (on : Option Expression) : Mirrors (Draft.alter f g h) id (joinEntity compile kind e on)
      (joinEntity compile' kind e (on.map (·.mapValues f))) := by
  refine (expect_mirrors .join).bind fun _ => ?_
  refine (checkPermission_mirrors e .select).bind fun _ => ?_
  refine (onClause_mirrors hc kind e on).bind fun condition => ?_
  exact (write_mirrors _).bind fun _ => moveTo_mirrors .join

theorem opener_mapValues (keyword : String) (first : Bool) (x : Expression) :
    opener keyword first (x.mapValues f) = opener keyword first x := by
  simp [opener]

theorem addWhere_mirrors (x : Expression) (sql : Sql) :
    Mirrors (Draft.alter f g h) id (addWhere x sql) (addWhere (x.mapValues f) sql) := by
  refine .ite ?_ (mirrors_pure ())
  refine mirrors_get.bind fun d => ?_
  simp only [opener_mapValues, Draft.alter_whereOpen]
  exact Mirrors.bind (mirrors_modify fun _ => rfl) fun _ => write_mirrors _

theorem filterBy_mirrors (hc : CompilesAlike f compile compile') (x : Expression) :
    Mirrors (Draft.alter f g h) id (filterBy compile x) (filterBy compile' (x.mapValues f)) := by
  refine (expect_mirrors .where).bind fun _ => ?_
  refine (Expression.predicate_mirrors hc x).bind fun sql => ?_
  exact (addWhere_mirrors x sql).bind fun _ => moveTo_mirrors .where

theorem addHaving_mirrors (x : Expression) (sql : Sql) :
    Mirrors (Draft.alter f g h) id (addHaving x sql) (addHaving (x.mapValues f) sql) := by
  refine .ite ?_ (mirrors_pure ())
  refine mirrors_get.bind fun d => ?_
  simp only [opener_mapValues, Draft.alter_havingOpen]
  exact Mirrors.bind (mirrors_modify fun _ => rfl) fun _ => write_mirrors _

theorem havingBy_mirrors (hc : CompilesAlike f compile compile') (x : Expression) :
    Mirrors (Draft.alter f g h) id (havingBy compile x) (havingBy compile' (x.mapValues f)) := by
  refine (expect_mirrors .having).bind fun _ => ?_
  refine (Expression.predicate_mirrors hc x).bind fun sql => ?_
  exact (addHaving_mirrors x sql).bind fun _ => moveTo_mirrors .having

theorem nonEmptyList_mirrors (clause : Clause) (list : List Sql) :
    Mirrors (Draft.alter f g h) id (nonEmptyList clause list) (nonEmptyList clause list) :=
  .ite (mirrors_throw _) (mirrors_pure _)

theorem groupBy_mirrors (properties : List Expression) :
    Mirrors (Draft.alter f g h) id (groupBy properties)
      (groupBy (properties.map (·.mapValues f))) := by
  unfold groupBy
  rw [filter_mapValues]
  refine (expect_mirrors .groupBy).bind fun _ => ?_
  refine (mirrors_mapM_same fun x _ => Expression.reference_mirrors x).bind fun list => ?_
  refine (nonEmptyList_mirrors .groupBy list).bind fun sql => ?_
  exact (write_mirrors _).bind fun _ => moveTo_mirrors .groupBy

theorem sortKey_mirrors (x : Expression) :
    Mirrors (Draft.alter f g h) id (sortKey x) (sortKey (x.mapValues f)) := by
  refine (Expression.reference_mirrors x).bind fun sql => ?_
  simp only [Expression.mapValues_sort]
  cases x.sort with
  | none => exact mirrors_pure _
  | some order => exact mirrors_pure _

theorem orderBy_mirrors (properties : List Expression) :
    Mirrors (Draft.alter f g h) id (orderBy properties)
      (orderBy (properties.map (·.mapValues f))) := by
  unfold orderBy
  rw [filter_mapValues]
  refine (expect_mirrors .orderBy).bind fun _ => ?_
  refine (mirrors_mapM_same fun x _ => sortKey_mirrors x).bind fun list => ?_
  refine (nonEmptyList_mirrors .orderBy list).bind fun sql => ?_
  refine mirrors_get.bind fun d => ?_
  exact (write_mirrors _).bind fun _ => moveTo_mirrors .orderBy

theorem insertList_mapValues (e : Entity) (properties : List Expression) :
    insertList e (properties.map (·.mapValues f)) =
      (insertList e properties).map (·.mapValues f) := by
  unfold insertList
  rw [List.isEmpty_map]
  split
  · rw [List.map_map]
    rfl
  · rfl

theorem insertInto_mirrors (e : Entity) (properties : List Expression) :
    Mirrors (Draft.alter f g h) id (insertInto e properties)
      (insertInto e (properties.map (·.mapValues f))) := by
  unfold insertInto
  rw [insertList_mapValues]
  refine (expect_mirrors .insert).bind fun _ => ?_
  refine (checkTarget_mirrors e .insert).bind fun _ => ?_
  refine Mirrors.bind (mirrors_modify fun _ => rfl) fun _ => ?_
  generalize insertList e properties = columns
  refine (mirrors_forM fun x _ => ?_).bind fun _ => ?_
  · exact (checkColumn_mirrors x).bind fun _ => Expression.checkPermission_mirrors x .insert
  · simp only [List.isEmpty_map, List.filterMap_map]
    refine .ite (mirrors_throw_bind _ _ _) ?_
    have names : ((fun x : Expression => x.column.map (·.column)) ∘ Expression.mapValues f) =
        fun x : Expression => x.column.map (·.column) := by
      funext x
      simp
    rw [names]
    refine (write_mirrors _).bind fun _ => ?_
    exact Mirrors.bind (mirrors_modify fun _ => rfl) fun _ => moveTo_mirrors .insert

theorem appendRow_mirrors (row : List SqlValue) :
    Mirrors (Draft.alter f g h) id (appendRow row) (appendRow (row.map f)) := by
  refine mirrors_get.bind fun d => ?_
  simp only [Draft.alter_insertColumns, Draft.alter_clause, List.length_map, List.zip_map]
  refine .ite (mirrors_throw_bind _ _ _) ?_
  refine (mirrors_mapM_same fun entry _ => ?_).bind fun list => ?_
  · simp only [Prod.map, Expression.mapValues_column]
    exact bindValue_mirrors _ entry.1
  · exact (write_mirrors _).bind fun _ => moveTo_mirrors .values

theorem valuesRow_mirrors (row : List SqlValue) :
    Mirrors (Draft.alter f g h) id (valuesRow row) (valuesRow (row.map f)) :=
  (expect_mirrors .values).bind fun _ => appendRow_mirrors row

theorem recordValue_mapValues (record : Record) (x : Expression) :
    recordValue? (record.mapValues f) (x.mapValues f) = (recordValue? record x).map f := by
  simp only [recordValue?, Record.mapValues, Expression.mapValues_property,
    Expression.mapValues_column, List.find?_map, Option.map_map]
  rfl

theorem valuesRecord_mirrors (record : Record) :
    Mirrors (Draft.alter f g h) id (valuesRecord record) (valuesRecord (record.mapValues f)) := by
  refine (expect_mirrors .values).bind fun _ => ?_
  refine mirrors_get.bind fun d => ?_
  simp only [Draft.alter_insertColumns]
  refine (mirrors_mapM (k := f) fun x _ => ?_).bind fun row => appendRow_mirrors row
  simp only [recordValue_mapValues, Expression.mapValues_property]
  exact orFail_mirrors _ _

theorem beginWith_mirrors (clause : Clause) (kind : StatementKind) (keyword : String)
    (e : Entity) : Mirrors (Draft.alter f g h) id (beginWith clause kind keyword e)
      (beginWith clause kind keyword e) := by
  refine (expect_mirrors clause).bind fun _ => ?_
  refine (checkTarget_mirrors e kind).bind fun _ => ?_
  refine (write_mirrors _).bind fun _ => ?_
  exact Mirrors.bind (mirrors_modify fun _ => rfl) fun _ => moveTo_mirrors clause

theorem setColumn_mirrors (x : Expression) (operation : UpdateOperation) :
    Mirrors (Draft.alter f g h) id (setColumn x operation)
      (setColumn (x.mapValues f) (operation.mapValues f)) := by
  have value : (operation.mapValues f).value = f operation.value := by cases operation <;> rfl
  have assignment : (operation.mapValues f).assignment = operation.assignment := by
    cases operation <;> rfl
  simp only [setColumn, Expression.mapValues_column, Expression.mapValues_entity,
    Expression.mapValues_property, value, assignment]
  refine (expect_mirrors .set).bind fun _ => ?_
  refine (checkColumn_mirrors x).bind fun _ => ?_
  refine (Expression.checkPermission_mirrors x .update).bind fun _ => ?_
  have column := orFail_mirrors (f := f) (g := g) (h := h) (k := id) x.column
    (.metadataResolution x.entity x.property)
  rw [Option.map_id] at column
  refine column.bind fun column => ?_
  refine (bindValue_mirrors (some column) operation.value).bind fun sql => ?_
  refine mirrors_get.bind fun d => ?_
  exact (write_mirrors _).bind fun _ => moveTo_mirrors .set

theorem unionWith_mirrors (keyword : String) :
    Mirrors (Draft.alter f g h) id (unionWith keyword) (unionWith keyword) := by
  refine (expect_mirrors .union).bind fun _ => ?_
  refine (write_mirrors _).bind fun _ => ?_
  exact Mirrors.bind (mirrors_modify fun _ => rfl) fun _ => moveTo_mirrors .union

end Build

def Call.ends (c : Call) (e : Ending) : Ending := (c.limit?.or e.1, c.page?.or e.2)

theorem Call.ends_id (c : Call) (e : Ending) : id (c.ends e) = c.ends (id e) := rfl

/-- A row limit or page is set on the draft whatever ending it has; the change of endings must keep
it. -/
theorem Call.make_mirrors (hc : CompilesAlike f compile compile') (c : Call)
    (ends : ∀ e, g (c.ends e) = c.ends (g e)) :
    Mirrors (Draft.alter f g h) id (c.make compile) ((c.mapValues f).make compile') := by
  cases c with
  | select properties => exact selectBlock_mirrors hc properties false ends
  | selectDistinct properties => exact selectBlock_mirrors hc properties true ends
  | selectLimit limit => exact selectBlock_mirrors hc [] false ends
  | selectPropertiesLimit properties limit =>
    exact selectBlock_mirrors hc properties false ends
  | «from» entity => exact fromEntity_mirrors entity
  | join kind entity on => exact joinEntity_mirrors hc kind entity on
  | filter predicate => exact filterBy_mirrors hc predicate
  | groupBy properties => exact groupBy_mirrors properties
  | having predicate => exact havingBy_mirrors hc predicate
  | orderBy properties => exact orderBy_mirrors properties
  | insert entity properties => exact insertInto_mirrors entity properties
  | values row => exact valuesRow_mirrors row
  | valuesRecord record => exact valuesRecord_mirrors record
  | update entity => exact beginWith_mirrors _ _ _ entity
  | set property operation => exact setColumn_mirrors property operation
  | delete entity => exact beginWith_mirrors _ _ _ entity
  | truncate entity => exact beginWith_mirrors _ _ _ entity
  | union => exact unionWith_mirrors " UNION "
  | unionAll => exact unionWith_mirrors " UNION ALL "
  | paginate page =>
    refine mirrors_modify fun d => ?_
    have kept : g (d.rowLimit, some page) = ((g d.ending).1, some page) := ends d.ending
    simp only [Draft.alter, Draft.ending, kept]

end DmlCompiler
