import DmlCompiler.Proofs.Build.Programs
import DmlCompiler.Proofs.SubQueries

/-! # Calls as programs

Every call is a program that asks for the text of its own sub-queries, and for the select list of an
entity only where this entity may be selected from. A query is one that asks for the text of the
sub-queries of its calls, and for the lists of entities that the registry has under its names. -/
namespace DmlCompiler

open Build

variable {registry : Registry} {compile : Query → Build Command}
variable {lists : Entity → Prop} {inlines : SubQuery → Prop}

section Fragments

theorem Function.apply_program (f : Function) (inner : Sql) :
    Program registry compile lists inlines (f.apply inner) := by
  refine .look (fun _ _ _ => rfl) fun d _ => ?_
  refine .bind (.mapM fun value _ => ?_) fun params => .pure _
  exact .bind (.bindValue none value) fun _ => .pure _

theorem Command.inline_program (c : Command) :
    Program registry compile lists inlines c.inline := by
  refine .ite (fun _ => .throw_bind _ _) fun _ => ?_
  refine .bind (.mapM fun p _ => ?_) fun renames => .pure _
  exact .bind (.addParameter p.value p.type p.size) fun _ => .pure _

namespace Expression

theorem base_program (x : Expression) : Program registry compile lists inlines x.base := by
  refine .ite (fun _ => .pure _) fun _ => ?_
  cases x.column with
  | none => exact .throw _
  | some column => exact .pure _

theorem reference_program (x : Expression) :
    Program registry compile lists inlines x.reference :=
  .bind x.base_program fun column =>
    .foldlM (fun inner f => f.apply_program inner) x.functions column

theorem operand_program (x : Expression) (alone : Bool) (o : Operand)
    (asked : ∀ q ∈ o.subQuery?, inlines q) :
    Program registry compile lists inlines (x.operand compile alone o) := by
  cases o with
  | value v => exact .bindValue x.typed v
  | subQuery q => exact .bind (.inline (asked q rfl)) fun sql => .pure _

theorem rightSide_program (x : Expression) (operator : Operator)
    (asked : ∀ q ∈ x.subQueries, inlines q) :
    Program registry compile lists inlines (x.rightSide compile operator) := by
  unfold rightSide
  cases carried : x.argument with
  | none => exact .throw _
  | some argument =>
    cases argument with
    | property other => exact other.reference_program
    | range low high =>
      refine .ite (fun _ => ?_) fun _ => .throw _
      refine .bind (.bindValue x.typed low) fun low => ?_
      exact .bind (.bindValue x.typed high) fun high => .pure _
    | list operands =>
      refine .ite (fun _ => ?_) fun _ => .throw _
      refine .bind (.mapM fun o ho => ?_) fun items => .pure _
      refine x.operand_program _ o fun q hq => asked q (operand_subQueries carried ?_)
      exact mem_operands (List.mem_filterMap.2 ⟨o, ho, hq⟩)
    | value v => exact .ite (fun _ => .throw _) fun _ => .bindValue x.typed v

theorem condition_program (x : Expression) (asked : ∀ q ∈ x.subQueries, inlines q) :
    Program registry compile lists inlines (x.condition compile) := by
  refine .ite (fun _ => .pure _) fun _ => ?_
  refine .bind x.reference_program fun left => ?_
  cases x.operator with
  | none => exact .pure _
  | some operator =>
    refine .ite (fun _ => .pure _) fun _ => ?_
    exact .bind (x.rightSide_program operator asked) fun right => .pure _

mutual

theorem predicate_program : ∀ x : Expression, (∀ q ∈ x.subQueries, inlines q) →
    Program registry compile lists inlines (x.predicate compile)
  | ⟨_, _, _, _, _, _, _, _, _, _, children⟩, asked => by
    have below : ∀ y ∈ children, ∀ q ∈ y.subQueries, inlines q :=
      fun y hy q hq => asked q (children_subQueries hy hq)
    rw [predicate_eq]
    refine .bind (condition_program _ asked) fun sql => ?_
    exact .bind (appendChildren_program children sql below) fun sql => .pure _

theorem appendChildren_program : ∀ (children : List Expression) (before : Sql),
    (∀ y ∈ children, ∀ q ∈ y.subQueries, inlines q) →
    Program registry compile lists inlines (appendChildren compile before children)
  | [], before, _ => by
    rw [appendChildren]
    exact .pure before
  | child :: rest, before, asked => by
    obtain ⟨first, later⟩ := List.forall_mem_cons.1 asked
    rw [appendChildren]
    exact .bind (predicate_program child first) fun sql => appendChildren_program rest _ later

end

theorem checkPermission_program (x : Expression) (kind : StatementKind) :
    Program registry compile lists inlines (x.checkPermission kind) := by
  unfold checkPermission
  cases x.column with
  | none => exact .pure ()
  | some column => exact .ite (fun _ => .pure ()) fun _ => .throw _

theorem projection_program (x : Expression) (asked : ∀ q ∈ x.subQueries, inlines q) :
    Program registry compile lists inlines (x.projection compile) := by
  refine .bind (x.checkPermission_program .select) fun _ => ?_
  refine .bind (x.condition_program asked) fun sql => ?_
  cases x.label with
  | none => exact .pure sql
  | some label =>
    cases shape : Identifier.checkShape label with
    | ok u =>
      simp only [shape]
      exact .pure _
    | error cause =>
      simp only [shape]
      exact .throw _

end Expression
end Fragments

namespace Build

theorem moveTo_program (clause : Clause) :
    Program registry compile lists inlines (moveTo clause) :=
  .change (fun _ _ _ => rfl) (fun _ => ⟨rfl, rfl⟩) fun _ => rfl

theorem checkPermission_program (e : Entity) (kind : StatementKind) :
    Program registry compile lists inlines (checkPermission e kind) :=
  .ite (fun _ => .pure ()) fun _ => .throw _

theorem checkTarget_program (e : Entity) (kind : StatementKind) :
    Program registry compile lists inlines (checkTarget e kind) :=
  .ite (fun _ => .throw_bind _ _) fun _ => checkPermission_program e kind

theorem checkColumn_program (x : Expression) :
    Program registry compile lists inlines (checkColumn x) :=
  .look (fun _ _ _ => rfl) fun _ _ => .ite (fun _ => .throw _) fun _ => .pure ()

theorem select1_program (x : Expression) (asked : ∀ q ∈ x.subQueries, inlines q) :
    Program registry compile lists inlines (select1 compile x) := by
  refine .bind (x.projection_program asked) fun sql => ?_
  exact .bind (.change (fun _ _ _ => rfl) (fun _ => ⟨rfl, rfl⟩) fun _ => rfl) fun _ => .pure sql

/-- The row limit is set in the draft that was read, which is a change of the draft as it is. -/
theorem limitRows_some (limit : UInt64) : limitRows (some limit) = (do
    let d ← get
    match d.dialect.rowLimitClause limit with
    | .ok _ => modify fun d => { d with rowLimit := some limit }
    | .error e => throw e) := by
  have alike (clause : Except QueryError String) (d : Draft) :
      (match clause with
        | .ok _ => set { d with rowLimit := some limit }
        | .error e => throw e : Build Unit) d =
      (match clause with
        | .ok _ => modify fun d : Draft => { d with rowLimit := some limit }
        | .error e => throw e : Build Unit) d := by cases clause <;> rfl
  funext d
  exact alike _ d

theorem limitRows_program (limit : Option UInt64) :
    Program registry compile lists inlines (limitRows limit) := by
  cases limit with
  | none => exact .pure ()
  | some limit =>
    rw [limitRows_some]
    refine .look (fun _ _ _ => rfl) fun d _ => ?_
    cases d.dialect.rowLimitClause limit with
    | ok clause => exact .change (fun _ _ _ => rfl) (fun _ => ⟨rfl, rfl⟩) fun _ => rfl
    | error e => exact .throw e

theorem writeList_program (list : List Sql) :
    Program registry compile lists inlines (writeList list) := by
  cases list with
  | nil => exact .change (fun _ _ _ => rfl) (fun _ => ⟨rfl, rfl⟩) fun _ => rfl
  | cons sql list => exact .write _

theorem selectBlock_program (properties : List Expression) (distinct : Bool)
    (limit : Option UInt64) (asked : ∀ x ∈ properties, ∀ q ∈ x.subQueries, inlines q) :
    Program registry compile lists inlines (selectBlock compile properties distinct limit) := by
  refine .bind (.expect .select) fun _ => ?_
  refine .bind (limitRows_program limit) fun _ => ?_
  refine .bind (.change (fun _ _ _ => rfl) (fun _ => ⟨rfl, rfl⟩) fun _ => rfl) fun _ => ?_
  refine .bind (.write _) fun _ => ?_
  refine .bind (.mapM fun x hx => ?_) fun list => ?_
  · exact select1_program x (asked x (List.mem_filter.1 hx).1)
  · exact .bind (writeList_program list) fun _ => moveTo_program .select

theorem writePendingList_program {e : Entity} (asked : lists e) :
    Program registry compile lists inlines (writePendingList e) := by
  refine .look (fun _ _ _ => rfl) fun _ _ => .ite (fun _ => ?_) fun _ => .pure ()
  refine .bind (.defaultList asked) fun list => ?_
  exact .bind (.write _) fun _ => .change (fun _ _ _ => rfl) (fun _ => ⟨rfl, rfl⟩) fun _ => rfl

theorem fromEntity_program {e : Entity} (asked : e.permissions.allows .select → lists e) :
    Program registry compile lists inlines (fromEntity e) := by
  refine .bind (.expect .from) fun _ => ?_
  by_cases selectable : e.permissions.allows .select = true
  · refine .bind (checkPermission_program e .select) fun _ => ?_
    refine .bind (writePendingList_program (asked selectable)) fun _ => ?_
    refine .bind (.write _) fun _ => ?_
    exact .bind (.change (fun _ _ _ => rfl) (fun _ => ⟨rfl, rfl⟩) fun _ => rfl) fun _ =>
      moveTo_program .from
  · rw [checkPermission, if_neg selectable]
    exact .throw_bind _ _

theorem onClause_program (kind : JoinKind) (e : Entity) (on : Option Expression)
    (asked : ∀ x ∈ on, ∀ q ∈ x.subQueries, inlines q) :
    Program registry compile lists inlines (onClause compile kind e on) := by
  refine .ite (fun _ => ?_) fun _ => .pure []
  cases on with
  | none => exact .throw _
  | some x =>
    refine .bind (x.predicate_program (asked x rfl)) fun sql => ?_
    exact .ite (fun _ => .throw _) fun _ => .pure _

theorem joinEntity_program (kind : JoinKind) (e : Entity) (on : Option Expression)
    (asked : ∀ x ∈ on, ∀ q ∈ x.subQueries, inlines q) :
    Program registry compile lists inlines (joinEntity compile kind e on) := by
  refine .bind (.expect .join) fun _ => ?_
  refine .bind (checkPermission_program e .select) fun _ => ?_
  refine .bind (onClause_program kind e on asked) fun condition => ?_
  exact .bind (.write _) fun _ => moveTo_program .join

theorem addWhere_program (x : Expression) (sql : Sql) :
    Program registry compile lists inlines (addWhere x sql) := by
  refine .ite (fun _ => .look (fun _ _ _ => rfl) fun _ _ => ?_) fun _ => .pure ()
  exact .bind (.change (fun _ _ _ => rfl) (fun _ => ⟨rfl, rfl⟩) fun _ => rfl) fun _ => .write _

theorem filterBy_program (x : Expression) (asked : ∀ q ∈ x.subQueries, inlines q) :
    Program registry compile lists inlines (filterBy compile x) := by
  refine .bind (.expect .where) fun _ => ?_
  refine .bind (x.predicate_program asked) fun sql => ?_
  exact .bind (addWhere_program x sql) fun _ => moveTo_program .where

theorem addHaving_program (x : Expression) (sql : Sql) :
    Program registry compile lists inlines (addHaving x sql) := by
  refine .ite (fun _ => .look (fun _ _ _ => rfl) fun _ _ => ?_) fun _ => .pure ()
  exact .bind (.change (fun _ _ _ => rfl) (fun _ => ⟨rfl, rfl⟩) fun _ => rfl) fun _ => .write _

theorem havingBy_program (x : Expression) (asked : ∀ q ∈ x.subQueries, inlines q) :
    Program registry compile lists inlines (havingBy compile x) := by
  refine .bind (.expect .having) fun _ => ?_
  refine .bind (x.predicate_program asked) fun sql => ?_
  exact .bind (addHaving_program x sql) fun _ => moveTo_program .having

theorem nonEmptyList_program (clause : Clause) (list : List Sql) :
    Program registry compile lists inlines (nonEmptyList clause list) :=
  .ite (fun _ => .throw _) fun _ => .pure _

theorem groupBy_program (properties : List Expression) :
    Program registry compile lists inlines (groupBy properties) := by
  refine .bind (.expect .groupBy) fun _ => ?_
  refine .bind (.mapM fun x _ => x.reference_program) fun list => ?_
  refine .bind (nonEmptyList_program .groupBy list) fun sql => ?_
  exact .bind (.write _) fun _ => moveTo_program .groupBy

theorem sortKey_program (x : Expression) : Program registry compile lists inlines (sortKey x) := by
  refine .bind x.reference_program fun sql => ?_
  cases x.sort with
  | none => exact .pure _
  | some order => exact .pure _

theorem orderBy_program (properties : List Expression) :
    Program registry compile lists inlines (orderBy properties) := by
  refine .bind (.expect .orderBy) fun _ => ?_
  refine .bind (.mapM fun x _ => sortKey_program x) fun list => ?_
  refine .bind (nonEmptyList_program .orderBy list) fun sql => ?_
  refine .look (fun _ _ _ => rfl) fun _ _ => ?_
  exact .bind (.write _) fun _ => moveTo_program .orderBy

theorem insertInto_program (e : Entity) (properties : List Expression) :
    Program registry compile lists inlines (insertInto e properties) := by
  refine .bind (.expect .insert) fun _ => ?_
  refine .bind (checkTarget_program e .insert) fun _ => ?_
  refine .bind (.change (fun _ _ _ => rfl) (fun _ => ⟨rfl, rfl⟩) fun _ => rfl) fun _ => ?_
  refine .bind (.forM fun x _ => ?_) fun _ => ?_
  · exact .bind (checkColumn_program x) fun _ => x.checkPermission_program .insert
  · refine .ite (fun _ => .throw_bind _ _) fun _ => ?_
    refine .bind (.write _) fun _ => ?_
    exact .bind (.change (fun _ _ _ => rfl) (fun _ => ⟨rfl, rfl⟩) fun _ => rfl) fun _ =>
      moveTo_program .insert

theorem appendRow_program (row : List SqlValue) :
    Program registry compile lists inlines (appendRow row) := by
  refine .look (fun _ _ _ => rfl) fun d _ => .ite (fun _ => .throw_bind _ _) fun _ => ?_
  refine .bind (.mapM fun entry _ => ?_) fun list => ?_
  · exact .bindValue entry.2.column entry.1
  · exact .bind (.write _) fun _ => moveTo_program .values

theorem valuesRow_program (row : List SqlValue) :
    Program registry compile lists inlines (valuesRow row) :=
  .bind (.expect .values) fun _ => appendRow_program row

theorem valuesRecord_program (record : Record) :
    Program registry compile lists inlines (valuesRecord record) := by
  refine .bind (.expect .values) fun _ => .look (fun _ _ _ => rfl) fun d _ => ?_
  exact .bind (.mapM fun x _ => .orFail _ _) fun row => appendRow_program row

theorem beginWith_program (clause : Clause) (kind : StatementKind) (keyword : String)
    (e : Entity) : Program registry compile lists inlines (beginWith clause kind keyword e) := by
  refine .bind (.expect clause) fun _ => ?_
  refine .bind (checkTarget_program e kind) fun _ => ?_
  refine .bind (.write _) fun _ => ?_
  exact .bind (.change (fun _ _ _ => rfl) (fun _ => ⟨rfl, rfl⟩) fun _ => rfl) fun _ =>
    moveTo_program clause

theorem setColumn_program (x : Expression) (operation : UpdateOperation) :
    Program registry compile lists inlines (setColumn x operation) := by
  refine .bind (.expect .set) fun _ => ?_
  refine .bind (checkColumn_program x) fun _ => ?_
  refine .bind (x.checkPermission_program .update) fun _ => ?_
  refine .bind (.orFail x.column _) fun column => ?_
  refine .bind (.bindValue (some column) operation.value) fun sql => ?_
  refine .look (fun _ _ _ => rfl) fun _ _ => ?_
  exact .bind (.write _) fun _ => moveTo_program .set

theorem unionWith_program (keyword : String) :
    Program registry compile lists inlines (unionWith keyword) := by
  refine .bind (.expect .union) fun _ => ?_
  refine .bind (.write _) fun _ => ?_
  exact .bind (.change (fun _ _ _ => rfl) (fun _ => ⟨rfl, rfl⟩) fun _ => rfl) fun _ =>
    moveTo_program .union

theorem finish_program : Program registry compile lists inlines finish := by
  refine .guarded (.look (fun _ _ _ => rfl) fun d _ => ?_)
  cases d.finished with
  | ok command => exact .pure command
  | error e => exact .throw e

end Build

/-- The call asks for its own sub-queries, and for the list of the entity that it names only if
this may be selected from. -/
theorem Call.make_program {c : Call} (asked : ∀ q ∈ c.subQueries, inlines q)
    (listed : ∀ e ∈ c.entity?, e.permissions.allows .select → lists e) :
    Program registry compile lists inlines (c.make compile) := by
  have within : ∀ x ∈ c.expressions, ∀ q ∈ x.subQueries, inlines q :=
    fun x hx q hq => asked q (List.mem_flatMap.2 ⟨x, hx, hq⟩)
  cases c with
  | select properties => exact selectBlock_program properties false none within
  | selectDistinct properties => exact selectBlock_program properties true none within
  | selectLimit limit => exact selectBlock_program [] false (some limit) nofun
  | selectPropertiesLimit properties limit =>
    exact selectBlock_program properties false (some limit) within
  | «from» e => exact fromEntity_program (listed e rfl)
  | join kind e on =>
    exact joinEntity_program kind e on fun x hx => within x (Option.mem_toList.2 hx)
  | filter x => exact filterBy_program x (within x (List.mem_singleton_self x))
  | groupBy properties => exact groupBy_program properties
  | having x => exact havingBy_program x (within x (List.mem_singleton_self x))
  | orderBy properties => exact orderBy_program properties
  | insert e properties => exact insertInto_program e properties
  | values row => exact valuesRow_program row
  | valuesRecord record => exact valuesRecord_program record
  | update e => exact beginWith_program _ _ _ e
  | set x operation => exact setColumn_program x operation
  | delete e => exact beginWith_program _ _ _ e
  | truncate e => exact beginWith_program _ _ _ e
  | union => exact unionWith_program " UNION "
  | unionAll => exact unionWith_program " UNION ALL "
  | paginate page => exact .change (fun _ _ _ => rfl) (fun _ => ⟨rfl, rfl⟩) fun _ => rfl

theorem Build.makeAll_program {calls : List Call}
    (asked : ∀ c ∈ calls, ∀ q ∈ c.subQueries, inlines q)
    (listed : ∀ c ∈ calls, ∀ e ∈ c.entity?, e.permissions.allows .select → lists e) :
    Program registry Query.compile lists inlines (makeAll calls) :=
  .forM fun c hc => .guarded (c.make_program (asked c hc) (listed c hc))

theorem RecordedCall.replay_program {c : RecordedCall} (asked : ∀ q ∈ c.subQueries, inlines q)
    (listed : ∀ name, .entity name ∈ c.parts → ∀ e ∈ registry.entity? name,
      e.permissions.allows .select → lists e) :
    Program registry compile lists inlines (c.replay compile) := by
  refine .look (fun _ _ _ => rfl) fun d same => ?_
  rw [same]
  cases read : c.call? d.dialect registry with
  | error e => exact .throw e
  | ok call =>
    refine .guarded (Call.make_program (fun q hq => asked q (call_subQueries read q hq)) ?_)
    intro e he
    obtain ⟨name, named, found⟩ := (covers_of_call? read).2 e he
    exact listed name named e found

namespace Query

variable {q : Query}

theorem replay_program (asked : ∀ s ∈ q.subQueries, inlines s)
    (listed : ∀ name, .entity name ∈ q.parts → ∀ e ∈ registry.entity? name,
      e.permissions.allows .select → lists e) :
    Program registry compile lists inlines (q.replay compile) := by
  have paged : Program registry compile lists inlines (q.setPage compile) := by
    unfold setPage
    cases q.page with
    | none => exact .pure ()
    | some page => exact .guarded (.change (fun _ _ _ => rfl) (fun _ => ⟨rfl, rfl⟩) fun _ => rfl)
  refine .bind paged fun _ => .forM fun c hc => RecordedCall.replay_program ?_ ?_
  · exact fun s hs => asked s (List.mem_flatMap.2 ⟨c, hc, hs⟩)
  · exact fun name named => listed name (record_parts hc _ named)

/-- The query asks the compiler of queries for the text of its sub-queries. -/
theorem compile_program (asked : ∀ s ∈ q.subQueries, inlines s)
    (listed : ∀ name, .entity name ∈ q.parts → ∀ e ∈ registry.entity? name,
      e.permissions.allows .select → lists e) :
    Program registry Query.compile lists inlines q.compile := by
  rw [compile_eq]
  exact .bind (replay_program asked listed) fun _ => finish_program

end Query
end DmlCompiler
