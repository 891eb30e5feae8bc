import DmlCompiler.Proofs.Coupling.Expressions
import DmlCompiler.Proofs.Places

/-! # Calls side by side

A call keeps coupled drafts coupled, and so do recorded calls, queries and whole runs. The row
limit of a call and the select list of its entity are the only further things that it asks of the
surroundings. -/
namespace DmlCompiler

open Build

namespace Coupling

/-- The select list of the entity is written alike on both sides. -/
def Lists (C : Coupling) (entity : Entity) : Prop :=
  Couples C (fun a b => C.fragment (Sql.ofString a) (Sql.ofString b)) (defaultList entity)
    (defaultList entity)

structure Serves (C : Coupling) (compile compile' : Query → Build Command) (c : Call) : Prop where
  adds : C.Adds
  inner : ∀ q ∈ c.subQueries, C.Inlines compile compile' q
  lists : ∀ e ∈ c.entity?, C.Lists e
  limit : InStep C (limitRows c.limit?) (limitRows c.limit?)

end Coupling

variable {C : Coupling} {compile compile' : Query → Build Command}

namespace Build

theorem checkPermission_couples (e : Entity) (kind : StatementKind) :
    InStep C (checkPermission e kind) (checkPermission e kind) :=
  .ite Iff.rfl (fun _ => couples_pure trivial) fun _ => couples_throw _

theorem checkTarget_couples (e : Entity) (kind : StatementKind) :
    InStep C (checkTarget e kind) (checkTarget e kind) :=
  .ite Iff.rfl (fun _ => couples_throw_bind _ _ _) fun _ => checkPermission_couples e kind

theorem checkColumn_couples (x : Expression) : InStep C (checkColumn x) (checkColumn x) := by
  refine couples_get.bind fun d e beside => ?_
  obtain ⟨⟨_, _, _, _, _, rfl⟩, _, _⟩ := beside
  exact .ite Iff.rfl (fun _ => couples_throw _) fun _ => couples_pure trivial

theorem select1_couples (adds : C.Adds) (x : Expression)
    (inner : ∀ q ∈ x.subQueries, C.Inlines compile compile' q) :
    Couples C C.fragment (select1 compile x) (select1 compile' x) := by
  refine (x.projection_couples adds inner).bind fun a b h => ?_
  refine Couples.then (couples_modify (fun _ _ _ _ _ _ => rfl) (fun _ => ?_) fun _ => rfl)
    (couples_pure h)
  exact ⟨rfl, rfl, rfl, rfl, rfl⟩

theorem writeList_couples {as bs : List Sql} (h : List.Forall₂ C.fragment as bs) :
    InStep C (writeList as) (writeList bs) := by
  cases h with
  | nil =>
    exact couples_modify (fun _ _ _ _ _ _ => rfl) (fun _ => ⟨rfl, rfl, rfl, rfl, rfl⟩) fun _ => rfl
  | cons first rest => exact couples_write (Coupling.fragment_join ", " (.cons first rest))

theorem selectBlock_couples (adds : C.Adds) (properties : List Expression) (distinct : Bool)
    {limit : Option UInt64} (limited : InStep C (limitRows limit) (limitRows limit))
    (inner : ∀ x ∈ properties, ∀ q ∈ x.subQueries, C.Inlines compile compile' q) :
    InStep C (selectBlock compile properties distinct limit)
      (selectBlock compile' properties distinct limit) := by
  refine (couples_expect .select).then (limited.then ?_)
  refine Couples.then (couples_modify (fun _ _ _ _ _ _ => rfl) (fun _ => ?_) fun _ => rfl) ?_
  · exact ⟨rfl, rfl, rfl, rfl, rfl⟩
  refine (couples_write (C.text _)).then ?_
  refine (Coupling.couples_fragments fun x hx => ?_).bind fun as bs rendered => ?_
  · exact select1_couples adds x (inner x (List.mem_filter.1 hx).1)
  · exact (writeList_couples rendered).then (couples_moveTo .select)

theorem writePendingList_couples {entity : Entity} (lists : C.Lists entity) :
    InStep C (writePendingList entity) (writePendingList entity) := by
  refine couples_get.bind fun d e beside => ?_
  obtain ⟨⟨_, _, _, _, _, rfl⟩, _, _⟩ := beside
  refine .ite Iff.rfl (fun _ => ?_) fun _ => couples_pure trivial
  refine Couples.bind lists fun a b list => ?_
  refine (couples_write list).then ?_
  exact couples_modify (fun _ _ _ _ _ _ => rfl) (fun _ => ⟨rfl, rfl, rfl, rfl, rfl⟩) fun _ => rfl

theorem fromEntity_couples {entity : Entity} (lists : C.Lists entity) :
    InStep C (fromEntity entity) (fromEntity entity) := by
  refine (couples_expect .from).then ((checkPermission_couples entity .select).then ?_)
  refine (writePendingList_couples lists).then ((couples_write (C.text _)).then ?_)
  refine Couples.then (couples_modify (fun _ _ _ _ _ _ => rfl) (fun _ => ?_) fun _ => rfl)
    (couples_moveTo .from)
  exact ⟨rfl, rfl, rfl, rfl, rfl⟩

theorem onClause_couples (adds : C.Adds) (kind : JoinKind) (entity : Entity)
    (on : Option Expression)
    (inner : ∀ x ∈ on, ∀ q ∈ x.subQueries, C.Inlines compile compile' q) :
    Couples C C.fragment (onClause compile kind entity on) (onClause compile' kind entity on) := by
  refine .ite Iff.rfl (fun _ => ?_) fun _ => couples_pure Coupling.fragment_nil
  cases on with
  | none => exact couples_throw _
  | some x =>
    refine (x.predicate_couples adds (inner x rfl)).bind fun a b h => ?_
    refine .ite (by rw [C.isEmpty h]) (fun _ => couples_throw _) fun _ => ?_
    exact couples_pure (C.append (C.text " ON ") h)

theorem joinEntity_couples (adds : C.Adds) (kind : JoinKind) (entity : Entity)
    (on : Option Expression)
    (inner : ∀ x ∈ on, ∀ q ∈ x.subQueries, C.Inlines compile compile' q) :
    InStep C (joinEntity compile kind entity on) (joinEntity compile' kind entity on) := by
  refine (couples_expect .join).then ((checkPermission_couples entity .select).then ?_)
  refine (onClause_couples adds kind entity on inner).bind fun a b h => ?_
  exact (couples_write (C.append (C.text _) h)).then (couples_moveTo .join)

theorem writeCondition_couples {a b : Sql} (h : C.fragment a b) (text : String) :
    InStep C (write (Sql.ofString text ++ a ++ Sql.ofString ")"))
      (write (Sql.ofString text ++ b ++ Sql.ofString ")")) :=
  couples_write (C.append (C.append (C.text text) h) (C.text ")"))

theorem addWhere_couples (x : Expression) {a b : Sql} (h : C.fragment a b) :
    InStep C (addWhere x a) (addWhere x b) := by
  refine .ite (by rw [C.isEmpty h]) (fun _ => ?_) fun _ => couples_pure trivial
  refine couples_get.bind fun d e beside => ?_
  obtain ⟨⟨_, _, _, _, _, rfl⟩, _, _⟩ := beside
  refine Couples.then (couples_modify (fun _ _ _ _ _ _ => rfl) (fun _ => ?_) fun _ => rfl)
    (writeCondition_couples h _)
  exact ⟨rfl, rfl, rfl, rfl, rfl⟩

theorem addHaving_couples (x : Expression) {a b : Sql} (h : C.fragment a b) :
    InStep C (addHaving x a) (addHaving x b) := by
  refine .ite (by rw [C.isEmpty h]) (fun _ => ?_) fun _ => couples_pure trivial
  refine couples_get.bind fun d e beside => ?_
  obtain ⟨⟨_, _, _, _, _, rfl⟩, _, _⟩ := beside
  refine Couples.then (couples_modify (fun _ _ _ _ _ _ => rfl) (fun _ => ?_) fun _ => rfl)
    (writeCondition_couples h _)
  exact ⟨rfl, rfl, rfl, rfl, rfl⟩

theorem filterBy_couples (adds : C.Adds) (x : Expression)
    (inner : ∀ q ∈ x.subQueries, C.Inlines compile compile' q) :
    InStep C (filterBy compile x) (filterBy compile' x) := by
  refine (couples_expect .where).then ?_
  refine (x.predicate_couples adds inner).bind fun a b h => ?_
  exact (addWhere_couples x h).then (couples_moveTo .where)

theorem havingBy_couples (adds : C.Adds) (x : Expression)
    (inner : ∀ q ∈ x.subQueries, C.Inlines compile compile' q) :
    InStep C (havingBy compile x) (havingBy compile' x) := by
  refine (couples_expect .having).then ?_
  refine (x.predicate_couples adds inner).bind fun a b h => ?_
  exact (addHaving_couples x h).then (couples_moveTo .having)

theorem nonEmptyList_couples (clause : Clause) {as bs : List Sql}
    (h : List.Forall₂ C.fragment as bs) :
    Couples C C.fragment (nonEmptyList clause as) (nonEmptyList clause bs) := by
  have same : as.isEmpty = bs.isEmpty := by
    cases h <;> rfl
  refine .ite (by rw [same]) (fun _ => couples_throw _) fun _ => ?_
  exact couples_pure (Coupling.fragment_join ", " h)

theorem groupBy_couples (adds : C.Adds) (properties : List Expression) :
    InStep C (groupBy properties) (groupBy properties) := by
  refine (couples_expect .groupBy).then ?_
  refine (Coupling.couples_fragments fun x _ => x.reference_couples adds).bind fun _ _ list => ?_
  refine (nonEmptyList_couples .groupBy list).bind fun a b h => ?_
  exact (couples_write (C.append (C.text " GROUP BY ") h)).then (couples_moveTo .groupBy)

theorem sortKey_couples (adds : C.Adds) (x : Expression) :
    Couples C C.fragment (sortKey x) (sortKey x) := by
  refine (x.reference_couples adds).bind fun a b h => ?_
  cases x.sort with
  | none => exact couples_pure h
  | some order => exact couples_pure (C.append h (C.text _))

theorem orderBy_couples (adds : C.Adds) (properties : List Expression) :
    InStep C (orderBy properties) (orderBy properties) := by
  refine (couples_expect .orderBy).then ?_
  refine (Coupling.couples_fragments fun x _ => sortKey_couples adds x).bind fun _ _ list => ?_
  refine (nonEmptyList_couples .orderBy list).bind fun a b h => ?_
  refine couples_get.bind fun d e beside => ?_
  obtain ⟨⟨_, _, _, _, _, rfl⟩, _, _⟩ := beside
  exact (couples_write (C.append (C.text _) h)).then (couples_moveTo .orderBy)

theorem insertInto_couples (entity : Entity) (properties : List Expression) :
    InStep C (insertInto entity properties) (insertInto entity properties) := by
  refine (couples_expect .insert).then ((checkTarget_couples entity .insert).then ?_)
  refine Couples.then (couples_modify (fun _ _ _ _ _ _ => rfl) (fun _ => ?_) fun _ => rfl) ?_
  · exact ⟨rfl, rfl, rfl, rfl, rfl⟩
  refine Couples.then (couples_forM fun x _ => ?_) ?_
  · exact (checkColumn_couples x).then (x.checkPermission_couples .insert)
  refine .ite Iff.rfl (fun _ => couples_throw_bind _ _ _) fun _ => ?_
  refine (couples_write ?_).then ?_
  · have columns (names : List String) :
        C.fragment (Sql.join ", " (names.map Sql.ofString))
          (Sql.join ", " (names.map Sql.ofString)) := by
      rw [← Sql.ofString_intercalate]
      exact C.text _
    exact C.append (C.append (C.text _) (columns _)) (C.text ")")
  · refine Couples.then (couples_modify (fun _ _ _ _ _ _ => rfl) (fun _ => ?_) fun _ => rfl)
      (couples_moveTo .insert)
    exact ⟨rfl, rfl, rfl, rfl, rfl⟩

theorem appendRow_couples (adds : C.Adds) (row : List SqlValue) :
    InStep C (appendRow row) (appendRow row) := by
  refine couples_get.bind fun d e beside => ?_
  obtain ⟨⟨_, _, _, _, _, rfl⟩, _, _⟩ := beside
  refine .ite Iff.rfl (fun _ => couples_throw_bind _ _ _) fun _ => ?_
  refine (Coupling.couples_fragments fun entry _ => ?_).bind fun _ _ list => ?_
  · exact bindValue_couples adds entry.2.column entry.1
  refine (couples_write (C.append (C.text _) ?_)).then (couples_moveTo .values)
  exact Coupling.fragment_parenthesize (Coupling.fragment_join ", " list)

theorem valuesRecord_couples (adds : C.Adds) (record : Record) :
    InStep C (valuesRecord record) (valuesRecord record) := by
  refine (couples_expect .values).then (couples_get.bind fun d e beside => ?_)
  obtain ⟨⟨_, _, _, _, _, rfl⟩, _, _⟩ := beside
  have value (x : Expression) :=
    couples_orFail (C := C) (recordValue? record x) (.ordering (.missingValue x.property))
  refine (couples_mapM fun x _ => value x).bind fun first second same => ?_
  rw [List.forall₂_eq_eq_eq] at same
  subst same
  exact appendRow_couples adds first

theorem beginWith_couples (clause : Clause) (kind : StatementKind) (keyword : String)
    (entity : Entity) :
    InStep C (beginWith clause kind keyword entity) (beginWith clause kind keyword entity) := by
  refine (couples_expect clause).then ((checkTarget_couples entity kind).then ?_)
  refine (couples_write (C.text _)).then ?_
  refine Couples.then (couples_modify (fun _ _ _ _ _ _ => rfl) (fun _ => ?_) fun _ => rfl)
    (couples_moveTo clause)
  exact ⟨rfl, rfl, rfl, rfl, rfl⟩

theorem setColumn_couples (adds : C.Adds) (x : Expression) (operation : UpdateOperation) :
    InStep C (setColumn x operation) (setColumn x operation) := by
  refine (couples_expect .set).then ((checkColumn_couples x).then ?_)
  refine (x.checkPermission_couples .update).then ?_
  refine (couples_orFail x.column _).bind fun column _ same => ?_
  subst same
  refine (bindValue_couples adds (some column) operation.value).bind fun a b h => ?_
  refine couples_get.bind fun d e beside => ?_
  obtain ⟨⟨_, _, _, _, _, rfl⟩, _, _⟩ := beside
  exact (couples_write (C.append (C.append (C.text _) (C.text _)) h)).then (couples_moveTo .set)

theorem unionWith_couples (keyword : String) :
    InStep C (unionWith keyword) (unionWith keyword) := by
  refine (couples_expect .union).then ((couples_write (C.text keyword)).then ?_)
  refine Couples.then (couples_modify (fun _ _ _ _ _ _ => rfl) (fun _ => ?_) fun _ => rfl)
    (couples_moveTo .union)
  exact ⟨rfl, rfl, rfl, rfl, rfl⟩

end Build

theorem Call.make_couples {c : Call} (served : C.Serves compile compile' c) :
    InStep C (c.make compile) (c.make compile') := by
  obtain ⟨adds, inner, lists, limit⟩ := served
  simp only [subQueries, List.mem_flatMap, forall_exists_index, and_imp] at inner
  have each : ∀ x ∈ c.expressions, ∀ q ∈ x.subQueries, C.Inlines compile compile' q :=
    fun x hx q hq => inner q x hx hq
  cases c with
  | select xs => exact selectBlock_couples adds xs false limit each
  | selectDistinct xs => exact selectBlock_couples adds xs true limit each
  | selectLimit n => exact selectBlock_couples adds [] false limit (List.forall_mem_nil _)
  | selectPropertiesLimit xs n => exact selectBlock_couples adds xs false limit each
  | «from» e => exact fromEntity_couples (lists e rfl)
  | join kind e on =>
    exact joinEntity_couples adds kind e on fun x hx => each x (Option.mem_toList.2 hx)
  | filter x => exact filterBy_couples adds x (each x (List.mem_singleton_self x))
  | groupBy xs => exact groupBy_couples adds xs
  | having x => exact havingBy_couples adds x (each x (List.mem_singleton_self x))
  | orderBy xs => exact orderBy_couples adds xs
  | insert e xs => exact insertInto_couples e xs
  | values row => exact (couples_expect .values).then (appendRow_couples adds row)
  | valuesRecord record => exact valuesRecord_couples adds record
  | update e => exact beginWith_couples _ _ _ e
  | set x operation => exact setColumn_couples adds x operation
  | delete e => exact beginWith_couples _ _ _ e
  | truncate e => exact beginWith_couples _ _ _ e
  | union => exact unionWith_couples " UNION "
  | unionAll => exact unionWith_couples " UNION ALL "
  | paginate page =>
    exact couples_modify (fun _ _ _ _ _ _ => rfl) (fun _ => ⟨rfl, rfl, rfl, rfl, rfl⟩) fun _ => rfl

/-- Where the dialect is the same, so is the fate of a row limit. -/
theorem Build.limitRows_couples (same : ∀ {d e}, C.held d e → e.dialect = d.dialect)
    (limit : Option UInt64) : InStep C (limitRows limit) (limitRows limit) := by
  cases limit with
  | none => exact couples_pure trivial
  | some limit =>
    refine couples_get.bind fun d e beside => ?_
    have alike : e.dialect.rowLimitClause limit = d.dialect.rowLimitClause limit := by
      rw [same beside.held]
    rw [alike]
    cases d.dialect.rowLimitClause limit with
    | error u => exact couples_throw u
    | ok text =>
      exact couples_set (beside.map (f := fun d => { d with rowLimit := some limit })
        (fun _ _ _ _ _ _ => rfl) (fun _ => ⟨rfl, rfl, rfl, rfl, rfl⟩) fun _ => rfl)

/-- What keeps a draft from being finished is not in its text. -/
theorem Draft.finished_over (d : Draft) (dialect : Dialect) (options : Options)
    (cache : SelectCache) (parameters : List Parameter) (sql : Sql) : ∃ text,
      (d.over dialect options cache parameters sql).finished =
        d.finished.map fun c => { c with sql := text, parameters := parameters } := by
  let e := d.over dialect options cache parameters sql
  refine ⟨(e.sql ++ Sql.ofString e.limitText ++ Sql.ofString e.pageText).text e.dialect, ?_⟩
  show (if !d.clause.isComplete then _ else if d.rowLimit.isSome && d.page.isSome then _
    else if d.page.isSome && d.kind ≠ .select then _ else _) = _
  unfold finished
  split_ifs <;> rfl

theorem Build.finish_couples : Couples C (fun _ _ => True) finish finish := by
  refine Couples.guarded (couples_get.bind fun d e beside => ?_)
  obtain ⟨⟨dialect, options, cache, parameters, sql, rfl⟩, _, _⟩ := beside
  obtain ⟨text, same⟩ := d.finished_over dialect options cache parameters sql
  rw [same]
  cases d.finished with
  | error u => exact couples_throw u
  | ok c => exact couples_pure trivial

theorem Build.makeAll_couples {calls : List Call}
    (served : ∀ c ∈ calls, C.Serves Query.compile Query.compile c) :
    InStep C (makeAll calls) (makeAll calls) :=
  couples_forM fun c hc => (Call.make_couples (served c hc)).guarded

structure Coupling.Reads (C : Coupling) (compile compile' : Query → Build Command)
    (record : RecordedCall) : Prop where
  alike : ∀ {d e}, C.held d e → record.call? e.dialect d.registry = record.call? d.dialect d.registry
  serves : ∀ {d e call}, C.held d e → record.call? d.dialect d.registry = .ok call →
    C.Serves compile compile' call

theorem RecordedCall.replay_couples {record : RecordedCall}
    (reads : C.Reads compile compile' record) :
    InStep C (record.replay compile) (record.replay compile') := by
  refine couples_get.bind fun d e beside => ?_
  have alike := reads.alike beside.held
  have registry : e.registry = d.registry := by
    obtain ⟨⟨_, _, _, _, _, rfl⟩, _, _⟩ := beside
    rfl
  rw [registry, alike]
  cases eq : record.call? d.dialect d.registry with
  | error u => exact couples_throw u
  | ok call => exact (Call.make_couples (reads.serves beside.held eq)).guarded

namespace Query

theorem replay_couples {q : Query} (reads : ∀ record ∈ q.calls, C.Reads compile compile' record) :
    InStep C (q.replay compile) (q.replay compile') := by
  refine Couples.then ?_ (couples_forM fun record hr => RecordedCall.replay_couples (reads record hr))
  unfold setPage
  cases q.page with
  | none => exact couples_pure trivial
  | some page =>
    refine Couples.guarded ?_
    exact couples_modify (fun _ _ _ _ _ _ => rfl) (fun _ => ⟨rfl, rfl, rfl, rfl, rfl⟩) fun _ => rfl

theorem compile_couples {q : Query}
    (reads : ∀ record ∈ q.calls, C.Reads Query.compile Query.compile record) :
    Couples C (fun _ _ => True) q.compile q.compile := by
  rw [compile_eq]
  exact (replay_couples reads).then finish_couples

end Query
end DmlCompiler
