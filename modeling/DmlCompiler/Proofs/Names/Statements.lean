import DmlCompiler.Proofs.Names.Expressions
import DmlCompiler.Proofs.Rendering.Queries

/-! # What statements name

A call over a vocabulary leaves a draft that is spelled in it, and so does a whole query; what it
needs the columns to permit, the columns that its nodes stand for permit. -/
namespace DmlCompiler

open Build Sql Vocabulary

variable {V : Vocabulary} {compile : Query → Build Command}

def Vocabulary.Knows (V : Vocabulary) (e : Entity) : Prop :=
  ∃ name, V.registry.entity? name = some e

/-- Fetching a list gives a spelled one and keeps no others. -/
theorem Draft.SpeltIn.fetch {d : Draft} {e : Entity} (hd : d.SpeltIn V) (known : V.Knows e) :
    V.Spells (ofString (d.cache.fetch e).1) ∧
      ∀ entry ∈ (d.cache.fetch e).2, V.Spells (ofString entry.2) := by
  obtain ⟨name, found⟩ := known
  unfold SelectCache.fetch
  split
  · next list eq => exact ⟨hd.cache _ (SelectCache.mem_of_find? eq), hd.cache⟩
  · exact ⟨.selectList found, List.forall_mem_cons.2 ⟨.selectList found, hd.cache⟩⟩

namespace Build

theorem write_spelt {sql : Sql} (spelled : V.Spells sql) :
    Preserves (Draft.SpeltIn V) (write sql) :=
  yields_modify fun _ hd => ⟨hd.dialect, hd.registry, hd.cache, hd.sql.append spelled⟩

theorem aside_spelt {f : Draft → Draft}
    (same : ∀ d : Draft, (f d).dialect = d.dialect ∧ (f d).registry = d.registry ∧
      (f d).cache = d.cache ∧ (f d).sql = d.sql) :
    Preserves (Draft.SpeltIn V) (modify f : Build PUnit) := by
  refine yields_modify fun d hd => ?_
  obtain ⟨dialect, registry, cache, sql⟩ := same d
  exact ⟨dialect.trans hd.dialect, registry.trans hd.registry, cache ▸ hd.cache, sql ▸ hd.sql⟩

theorem moveTo_spelt (clause : Clause) : Preserves (Draft.SpeltIn V) (moveTo clause) :=
  aside_spelt fun _ => ⟨rfl, rfl, rfl, rfl⟩

theorem spells_table {word : String} {e : Entity} (common : word ∈ commonWords)
    (known : V.Knows e) : V.Spells (ofString (word ++ e.table)) := by
  obtain ⟨name, found⟩ := known
  rw [ofString_append]
  exact .append (spells_common common) (.table found)

end Build

theorem Expression.projection_spells (hV : V.Covers) {x : Expression}
    (within : x.Within V compile) :
    Yields (Draft.SpeltIn V) V.Spells (x.projection compile) := by
  refine (x.checkPermission_preserves .select).then fun _ => ?_
  refine (condition_spells hV within).bind fun sql spelled => ?_
  split
  · exact yields_pure spelled
  · split
    · next shape => exact yields_pure (.append spelled (.label shape))
    · exact yields_throw _

namespace Build

theorem limitRows_spelt (limit : Option UInt64) :
    Preserves (Draft.SpeltIn V) (limitRows limit) := by
  cases limit with
  | none => exact yields_pure trivial
  | some limit =>
    refine yields_get.bind fun d hd => ?_
    split
    · exact yields_set ⟨hd.dialect, hd.registry, hd.cache, hd.sql⟩
    · exact yields_throw _

theorem writeList_spelt {list : List Sql} (spelled : ∀ sql ∈ list, V.Spells sql) :
    Preserves (Draft.SpeltIn V) (writeList list) := by
  cases list with
  | nil => exact aside_spelt fun _ => ⟨rfl, rfl, rfl, rfl⟩
  | cons sql list => exact write_spelt (spells_list spelled)

section Blocks

variable (hV : V.Covers)
include hV

theorem selectBlock_spelt {xs : List Expression} (within : ∀ x ∈ xs, x.Within V compile)
    (distinct : Bool) (limit : Option UInt64) :
    Preserves (Draft.SpeltIn V) (selectBlock compile xs distinct limit) := by
  refine (preserves_expect .select).then fun _ => (limitRows_spelt limit).then fun _ => ?_
  refine .then (aside_spelt fun _ => ⟨rfl, rfl, rfl, rfl⟩) fun _ => ?_
  have keyword : V.Spells (ofString (if distinct then "SELECT DISTINCT " else "SELECT ")) := by
    cases distinct <;> exact spells_common (by decide)
  refine (write_spelt keyword).then fun _ => ?_
  have each : ∀ x ∈ xs.filter (!·.isEmpty),
      Yields (Draft.SpeltIn V) V.Spells (select1 compile x) := by
    intro x hx
    refine (x.projection_spells hV (within x (List.mem_filter.1 hx).1)).bind fun sql spelled => ?_
    refine .then (aside_spelt fun _ => ⟨rfl, rfl, rfl, rfl⟩) fun _ => ?_
    exact yields_pure spelled
  refine (yields_mapM each).bind fun list spelled => ?_
  exact (writeList_spelt spelled).then fun _ => moveTo_spelt .select

theorem onClause_spells (kind : JoinKind) (e : Entity) {on : Option Expression}
    (within : ∀ x ∈ on.toList, x.Within V compile) :
    Yields (Draft.SpeltIn V) V.Spells (onClause compile kind e on) := by
  refine .ite (fun _ => ?_) fun _ => yields_pure .nil
  cases on with
  | none => exact yields_throw _
  | some x =>
    refine (Expression.predicate_spells hV (within x (by simp))).bind fun sql spelled => ?_
    refine .ite (fun _ => yields_throw _) fun _ => yields_pure ?_
    exact .append (spells_common (by decide)) spelled

theorem joinEntity_spelt (kind : JoinKind) {e : Entity} {on : Option Expression}
    (known : V.Knows e) (within : ∀ x ∈ on.toList, x.Within V compile) :
    Preserves (Draft.SpeltIn V) (joinEntity compile kind e on) := by
  obtain ⟨name, found⟩ := known
  refine (preserves_expect .join).then fun _ => (checkPermission_preserves e .select).then fun _ => ?_
  refine (onClause_spells hV kind e within).bind fun condition spelled => ?_
  refine (write_spelt (.append ?_ spelled)).then fun _ => moveTo_spelt .join
  have text : s!" {kind.sql} {e.table}" = s!" {kind.sql} " ++ e.table := rfl
  rw [text, ofString_append]
  exact .append (.word (.joinKind kind)) (.table found)

end Blocks

theorem defaultList_spells {e : Entity} (known : V.Knows e) :
    Yields (Draft.SpeltIn V) (fun list => V.Spells (ofString list)) (defaultList e) := by
  refine yields_get.bind fun d hd => .ite (fun _ => ?_) fun _ => ?_
  · obtain ⟨spelled, kept⟩ := hd.fetch known
    have spelt : Draft.SpeltIn V { d with cache := (d.cache.fetch e).2 } :=
      ⟨hd.dialect, hd.registry, kept, hd.sql⟩
    exact (yields_set spelt).then fun _ => yields_pure spelled
  · obtain ⟨name, found⟩ := known
    exact yields_pure (.selectList found)

theorem fromEntity_spelt {e : Entity} (known : V.Knows e) :
    Preserves (Draft.SpeltIn V) (fromEntity e) := by
  have pending : Preserves (Draft.SpeltIn V) (writePendingList e) := by
    refine yields_get.bind fun d _ => .ite (fun _ => ?_) fun _ => yields_pure trivial
    refine (defaultList_spells known).bind fun list spelled => (write_spelt spelled).then fun _ => ?_
    exact aside_spelt fun _ => ⟨rfl, rfl, rfl, rfl⟩
  refine (preserves_expect .from).then fun _ => (checkPermission_preserves e .select).then fun _ => ?_
  refine pending.then fun _ => ?_
  refine (write_spelt (spells_table (by decide) known)).then fun _ => ?_
  refine .then (aside_spelt fun _ => ⟨rfl, rfl, rfl, rfl⟩) fun _ => ?_
  exact moveTo_spelt .from

theorem spells_condition {keyword : String} (common : keyword ∈ commonWords) (first : Bool)
    (x : Expression) {sql : Sql} (spelled : V.Spells sql) :
    V.Spells (ofString (opener keyword first x) ++ sql ++ ofString ")") := by
  have before : V.Spells (ofString (opener keyword first x)) := by
    unfold opener
    split
    · exact spells_common common
    · split <;> exact spells_common (by decide)
  exact .append (.append before spelled) (spells_common (by decide))

section Conditions

variable (hV : V.Covers) {x : Expression} (within : x.Within V compile)
include hV within

theorem filterBy_spelt : Preserves (Draft.SpeltIn V) (filterBy compile x) := by
  refine (preserves_expect .where).then fun _ => ?_
  refine (Expression.predicate_spells hV within).bind fun sql spelled => ?_
  refine .then ?_ fun _ => moveTo_spelt .where
  refine .ite (fun _ => yields_get.bind fun d _ => ?_) fun _ => yields_pure trivial
  refine .then (aside_spelt fun _ => ⟨rfl, rfl, rfl, rfl⟩) fun _ => ?_
  exact write_spelt (spells_condition (by decide) _ x spelled)

theorem havingBy_spelt : Preserves (Draft.SpeltIn V) (havingBy compile x) := by
  refine (preserves_expect .having).then fun _ => ?_
  refine (Expression.predicate_spells hV within).bind fun sql spelled => ?_
  refine .then ?_ fun _ => moveTo_spelt .having
  refine .ite (fun _ => yields_get.bind fun d _ => ?_) fun _ => yields_pure trivial
  refine .then (aside_spelt fun _ => ⟨rfl, rfl, rfl, rfl⟩) fun _ => ?_
  exact write_spelt (spells_condition (by decide) _ x spelled)

end Conditions

theorem nonEmptyList_spells (clause : Clause) {list : List Sql}
    (spelled : ∀ sql ∈ list, V.Spells sql) :
    Yields (Draft.SpeltIn V) V.Spells (nonEmptyList clause list) :=
  .ite (fun _ => yields_throw _) fun _ => yields_pure (spells_list spelled)

section Lists

variable (hV : V.Covers) {xs : List Expression} (nodes : ∀ x ∈ xs, x ∈ V.nodes)
include hV nodes

theorem groupBy_spelt : Preserves (Draft.SpeltIn V) (groupBy xs) := by
  have each : ∀ x ∈ xs.filter (!·.isEmpty), Yields (Draft.SpeltIn V) V.Spells x.reference :=
    fun x hx => Expression.reference_spells hV (nodes x (List.mem_filter.1 hx).1)
  refine (preserves_expect .groupBy).then fun _ => (yields_mapM each).bind fun list spelled => ?_
  refine (nonEmptyList_spells .groupBy spelled).bind fun sql spelled => ?_
  exact (write_spelt (.append (spells_common (by decide)) spelled)).then fun _ =>
    moveTo_spelt .groupBy

theorem orderBy_spelt : Preserves (Draft.SpeltIn V) (orderBy xs) := by
  have each : ∀ x ∈ xs.filter (!·.isEmpty), Yields (Draft.SpeltIn V) V.Spells (sortKey x) := by
    intro x hx
    have node := nodes x (List.mem_filter.1 hx).1
    refine (Expression.reference_spells hV node).bind fun sql spelled => ?_
    split
    · next order _ => exact yields_pure (.append spelled (.word (.order order)))
    · exact yields_pure spelled
  refine (preserves_expect .orderBy).then fun _ => (yields_mapM each).bind fun list spelled => ?_
  refine (nonEmptyList_spells .orderBy spelled).bind fun sql spelled => yields_get.bind fun d _ => ?_
  refine (write_spelt (.append ?_ spelled)).then fun _ => moveTo_spelt .orderBy
  split <;> exact spells_common (by decide)

theorem insertInto_spelt {e : Entity} (known : V.Knows e) :
    Preserves (Draft.SpeltIn V) (insertInto e xs) := by
  refine (preserves_expect .insert).then fun _ => (checkTarget_preserves e .insert).then fun _ => ?_
  refine .then (aside_spelt fun _ => ⟨rfl, rfl, rfl, rfl⟩) fun _ => ?_
  have checks : ∀ x ∈ insertList e xs, Preserves (Draft.SpeltIn V)
      (do checkColumn x; x.checkPermission .insert) := fun x _ =>
    (checkColumn_preserves x).then fun _ => x.checkPermission_preserves .insert
  refine (preserves_forM checks).then fun _ => .ite (fun _ => yields_throw_bind _ _) fun _ => ?_
  have names : ∀ sql ∈ ((insertList e xs).filterMap fun x => x.column.map (·.column)).map ofString,
      V.Spells sql := by
    intro sql mem
    obtain ⟨name, listed, rfl⟩ := List.mem_map.1 mem
    obtain ⟨x, hx, eq⟩ := List.mem_filterMap.1 listed
    obtain ⟨c, carried, rfl⟩ := Option.map_eq_some_iff.1 eq
    rw [insertList] at hx
    split at hx
    · obtain ⟨column, insertable, rfl⟩ := List.mem_map.1 hx
      cases carried
      obtain ⟨name, found⟩ := known
      exact .insertable found insertable
    · exact hV.name (nodes x hx) carried
  have opening : V.Spells (ofString s!"INSERT INTO {e.table} (") := by
    have text : s!"INSERT INTO {e.table} (" = "INSERT INTO " ++ e.table ++ " (" := rfl
    rw [text, ofString_append]
    exact .append (spells_table (by decide) known) (spells_common (by decide))
  refine (write_spelt (.append (.append opening (spells_list names)) ?_)).then fun _ => ?_
  · exact spells_common (by decide)
  refine .then (aside_spelt fun _ => ⟨rfl, rfl, rfl, rfl⟩) fun _ => ?_
  exact moveTo_spelt .insert

end Lists

theorem appendRow_spelt (row : List SqlValue) : Preserves (Draft.SpeltIn V) (appendRow row) := by
  refine yields_get.bind fun d _ => .ite (fun _ => yields_throw_bind _ _) fun _ => ?_
  refine (yields_mapM fun _ _ => bindValue_spells _ _).bind fun list spelled => ?_
  refine (write_spelt (.append ?_ (spells_list spelled).parenthesize)).then fun _ =>
    moveTo_spelt .values
  split <;> exact spells_common (by decide)

theorem valuesRow_spelt (row : List SqlValue) : Preserves (Draft.SpeltIn V) (valuesRow row) :=
  (preserves_expect .values).then fun _ => appendRow_spelt row

theorem valuesRecord_spelt (record : Record) :
    Preserves (Draft.SpeltIn V) (valuesRecord record) := by
  refine (preserves_expect .values).then fun _ => yields_get.bind fun d _ => ?_
  have found : ∀ x ∈ d.insertColumns, Preserves (Draft.SpeltIn V)
      (orFail (recordValue? record x) (.ordering (.missingValue x.property))) :=
    fun x _ => (yields_orFail _ _).mono fun _ _ => trivial
  exact (yields_mapM found).bind fun row _ => appendRow_spelt row

theorem beginWith_spelt (clause : Clause) (kind : StatementKind) {keyword : String} {e : Entity}
    (common : keyword ∈ commonWords) (known : V.Knows e) :
    Preserves (Draft.SpeltIn V) (beginWith clause kind keyword e) := by
  refine (preserves_expect clause).then fun _ => (checkTarget_preserves e kind).then fun _ => ?_
  refine (write_spelt (spells_table common known)).then fun _ => ?_
  refine .then (aside_spelt fun _ => ⟨rfl, rfl, rfl, rfl⟩) fun _ => ?_
  exact moveTo_spelt clause

theorem spells_assignment (operation : UpdateOperation) {column : String}
    (spelled : V.Spells (ofString column)) :
    V.Spells (ofString (operation.assignment column)) := by
  have equals : V.Spells (ofString (column ++ " = ")) := by
    rw [ofString_append]
    exact .append spelled (spells_common (by decide))
  unfold UpdateOperation.assignment
  split
  · exact equals
  · next symbol eq =>
    have text : s!"{column} = {column} {symbol} " = column ++ " = " ++ column ++ " " ++ symbol ++
      " " := rfl
    have word : symbol ∈ commonWords := by
      cases operation <;> cases eq <;> decide
    rw [text]
    simp only [ofString_append] at equals ⊢
    have space : V.Spells (ofString " ") := spells_common (by decide)
    exact .append (.append (.append (.append equals spelled) space) (spells_common word)) space

theorem setColumn_spelt (hV : V.Covers) {x : Expression} (node : x ∈ V.nodes)
    (operation : UpdateOperation) : Preserves (Draft.SpeltIn V) (setColumn x operation) := by
  refine (preserves_expect .set).then fun _ => (checkColumn_preserves x).then fun _ => ?_
  refine (x.checkPermission_preserves .update).then fun _ => ?_
  refine (yields_orFail x.column _).bind fun column carried => ?_
  refine (bindValue_spells _ _).bind fun value spelled => yields_get.bind fun d _ => ?_
  have assignment := spells_assignment operation (hV.name node carried)
  refine (write_spelt (.append (.append ?_ assignment) spelled)).then fun _ => moveTo_spelt .set
  split <;> exact spells_common (by decide)

theorem unionWith_spelt {keyword : String} (common : keyword ∈ commonWords) :
    Preserves (Draft.SpeltIn V) (unionWith keyword) := by
  refine (preserves_expect .union).then fun _ => (write_spelt (spells_common common)).then fun _ => ?_
  refine .then (aside_spelt fun _ => ⟨rfl, rfl, rfl, rfl⟩) fun _ => ?_
  exact moveTo_spelt .union

end Build

structure Call.Within (V : Vocabulary) (compile : Query → Build Command) (c : Call) : Prop where
  expressions : ∀ x ∈ c.expressions, x.Within V compile
  entity : ∀ e ∈ c.entity?, V.Knows e

theorem Call.make_spelt (hV : V.Covers) {c : Call} (within : c.Within V compile) :
    Preserves (Draft.SpeltIn V) (c.make compile) := by
  obtain ⟨expressions, entity⟩ := within
  have nodes : ∀ x ∈ c.expressions, x ∈ V.nodes := fun x hx =>
    (expressions x hx).nodes x x.self_mem_nodes
  cases c with
  | select xs | selectDistinct xs | selectPropertiesLimit xs limit =>
    exact selectBlock_spelt hV expressions _ _
  | selectLimit limit => exact selectBlock_spelt hV (by simp) _ _
  | «from» e => exact fromEntity_spelt (entity e rfl)
  | join kind e on => exact joinEntity_spelt hV kind (entity e rfl) expressions
  | filter x => exact filterBy_spelt hV (expressions x List.mem_cons_self)
  | groupBy xs => exact groupBy_spelt hV nodes
  | having x => exact havingBy_spelt hV (expressions x List.mem_cons_self)
  | orderBy xs => exact orderBy_spelt hV nodes
  | insert e xs => exact insertInto_spelt hV nodes (entity e rfl)
  | values row => exact valuesRow_spelt row
  | valuesRecord record => exact valuesRecord_spelt record
  | update e | delete e | truncate e => exact beginWith_spelt _ _ (by decide) (entity e rfl)
  | set x operation => exact setColumn_spelt hV (nodes x List.mem_cons_self) operation
  | union | unionAll => exact unionWith_spelt (by decide)
  | paginate page => exact aside_spelt fun _ => ⟨rfl, rfl, rfl, rfl⟩

/-- Moreover the columns that its nodes stand for permit what it does. -/
theorem Call.make_permits (hV : V.Covers) {c : Call} (within : c.Within V compile) :
    Yields (Draft.SpeltIn V) (fun _ => V.Permits c) (c.make compile) := by
  intro d u d' hd given
  refine ⟨(make_spelt hV within hd given).1, fun g hg carried => ?_⟩
  have node := (within.expressions g.1 (guards_expressions hg)).nodes g.1 g.1.self_mem_nodes
  exact hV.permits node (c.make_requires given g hg) carried

theorem Build.finish_spells : Yields (Draft.SpeltIn V)
    (fun c => ∃ sql : Sql, c.sql = sql.text V.dialect ∧ V.Spells sql) finish := by
  refine (yields_get.bind fun d hd => ?_).guarded
  split
  · next command eq =>
    obtain ⟨_, rfl⟩ := Draft.finished_eq eq
    have limit : V.Spells (ofString d.limitText) := by
      unfold Draft.limitText
      split
      · exact .word (.rowLimit _)
      · exact .nil
    have page : V.Spells (ofString d.pageText) := by
      unfold Draft.pageText
      split
      · next page _ =>
        rw [hd.dialect, ofString_append]
        refine .append ?_ (.word (.page page))
        split
        · exact spells_common (by decide)
        · exact .nil
      · exact .nil
    exact yields_pure ⟨_, by rw [hd.dialect], .append (.append hd.sql limit) page⟩
  · exact yields_throw _

namespace Query

/-- The command of a query whose nodes are in the vocabulary expresses it there. -/
theorem compile_expresses (hV : V.Covers) (q : Query) : (∀ x ∈ q.nodes, x ∈ V.nodes) →
    Yields (Draft.SpeltIn V) (V.Expresses q) q.compile := by
  induction q using Query.induct with
  | step q ih =>
    intro nodes
    rw [compile_eq]
    have paged : Preserves (Draft.SpeltIn V) (q.setPage compile) := by
      unfold setPage
      split
      · exact (Call.make_spelt hV ⟨by simp [Call.expressions], by simp [Call.entity?]⟩).guarded
      · exact yields_pure trivial
    have each : ∀ record ∈ q.calls, Yields (Draft.SpeltIn V)
        (fun _ => ∃ call, record.call? V.dialect V.registry = .ok call ∧ V.Permits call)
        (record.replay compile) := by
      intro record hr
      refine yields_get.bind fun d hd => ?_
      rw [hd.dialect, hd.registry]
      split
      · next call eq =>
        have within : call.Within V compile := by
          obtain ⟨expressions, entity⟩ := RecordedCall.covers_of_call? eq
          refine ⟨fun x hx => ⟨fun y hy => nodes y ?_, fun p hp => ih p ?_⟩, fun e he => ?_⟩
          · exact expression_nodes hr (expressions x hx) hy
          · exact List.mem_flatMap.2 ⟨record, hr, List.mem_flatMap.2 ⟨x, expressions x hx, hp⟩⟩
          · obtain ⟨name, _, found⟩ := entity e he
            exact ⟨name, found⟩
        exact ((Call.make_permits hV within).mono fun _ permits => ⟨call, eq, permits⟩).guarded
      · exact yields_throw _
    have replayed : Yields (Draft.SpeltIn V) (fun _ => V.PermitsAll q) (q.replay compile) :=
      paged.then fun _ => yields_forM each
    refine replayed.bind fun _ permitted => ?_
    exact finish_spells.mono fun c spelled => ⟨spelled, permitted⟩

end Query
end DmlCompiler
