import DmlCompiler.Proofs.Conditions.Expressions
import DmlCompiler.Proofs.Rendering.Queries

/-! # Balanced statements

Every call on a tidy draft leaves a tidy one, so that the commands of queries with valid parts are
balanced, at whatever depth they stand in a condition. -/
namespace DmlCompiler

open Build Sql

variable {registry : Registry} {compile : Query → Build Command}

namespace Draft

variable {d d' : Draft}

/-- Only what a draft says besides its text and parameters is different. -/
theorem Tidy.congr (hd : d.Tidy registry) (same : d.SameParameters d') (sql : d'.sql = d.sql) :
    d'.Tidy registry where
  ready := by
    obtain ⟨added, parameters, names⟩ := hd.ready.parameters
    exact ⟨same.registry.trans hd.ready.registry, same.cache ▸ hd.ready.cache, added,
      same.parameters.trans parameters, names⟩
  sql := sql ▸ hd.sql

end Draft

namespace Build

theorem Yields.tidy {α : Type} {post : α → Prop} {x : Build α}
    (hx : Yields (Draft.Ready registry []) post x) (appends : Keeps Draft.Appends x) :
    Yields (Draft.Tidy registry) post x := by
  intro d a d' hd given
  obtain ⟨ready, ha⟩ := hx hd.ready given
  exact ⟨⟨ready, (appends given).sameText.sql ▸ hd.sql⟩, ha⟩

theorem preserves_aside {f : Draft → Draft}
    (same : ∀ d : Draft, d.SameParameters (f d) ∧ (f d).sql = d.sql) :
    Preserves (Draft.Tidy registry) (modify f : Build PUnit) :=
  yields_modify fun d hd => hd.congr (same d).1 (same d).2

theorem write_preserves {sql : Sql} (balanced : Balanced sql) :
    Preserves (Draft.Tidy registry) (write sql) :=
  yields_modify fun _ hd =>
    ⟨⟨hd.ready.registry, hd.ready.cache, hd.ready.parameters⟩, hd.sql.append balanced⟩

theorem moveTo_preserves (clause : Clause) : Preserves (Draft.Tidy registry) (moveTo clause) :=
  preserves_aside fun _ => ⟨⟨rfl, rfl, rfl, rfl⟩, rfl⟩

theorem balanced_name {text name : String} (balanced : Balanced (ofString text))
    (valid : Identifier.check name = .ok ()) : Balanced (ofString (text ++ name)) := by
  rw [ofString_append]
  exact balanced.append (isName_of_check valid).balanced

end Build

theorem Expression.projection_yields (hc : Balances registry compile) {x : Expression}
    (valid : ∀ p ∈ x.parts, p.IsValid Command.IsBalanced registry) {base : List Parameter} :
    Yields (Draft.Ready registry base) Balanced (x.projection compile) := by
  refine (x.checkPermission_preserves .select).then fun _ => ?_
  refine (condition_balanced hc valid).bind fun sql balanced => ?_
  split
  · exact yields_pure balanced
  · split
    · next label _ _ shape =>
      have name := (isName_of_checkShape shape).balanced
      have as : Balanced (ofString " AS ") := fun _ => rfl
      refine yields_pure ?_
      simp only [toString, ofString_append]
      exact balanced.append (as.append name)
    · exact yields_throw _

namespace Build

theorem limitRows_preserves (limit : Option UInt64) :
    Preserves (Draft.Tidy registry) (limitRows limit) := by
  cases limit with
  | none => exact yields_pure trivial
  | some limit =>
    refine yields_get.bind fun d hd => ?_
    split
    · exact yields_set (hd.congr ⟨rfl, rfl, rfl, rfl⟩ rfl)
    · exact yields_throw _

theorem writeList_preserves {list : List Sql} (balanced : ∀ sql ∈ list, Balanced sql) :
    Preserves (Draft.Tidy registry) (writeList list) := by
  cases list with
  | nil => exact preserves_aside fun _ => ⟨⟨rfl, rfl, rfl, rfl⟩, rfl⟩
  | cons sql list =>
    exact write_preserves (balanced_join Expression.separates_comma.balanced balanced)

theorem selectBlock_preserves (hc : Balances registry compile) {properties : List Expression}
    (valid : ∀ x ∈ properties, ∀ p ∈ x.parts, p.IsValid Command.IsBalanced registry)
    (distinct : Bool) (limit : Option UInt64) :
    Preserves (Draft.Tidy registry) (selectBlock compile properties distinct limit) := by
  refine (preserves_expect .select).then fun _ => (limitRows_preserves limit).then fun _ => ?_
  refine .then (preserves_aside fun _ => ⟨⟨rfl, rfl, rfl, rfl⟩, rfl⟩) fun _ => ?_
  have keyword : Balanced (ofString (if distinct then "SELECT DISTINCT " else "SELECT ")) := by
    cases distinct <;> exact fun _ => rfl
  refine (write_preserves keyword).then fun _ => ?_
  have each : ∀ x ∈ properties.filter (!·.isEmpty),
      Yields (Draft.Tidy registry) Balanced (select1 compile x) := by
    intro x hx
    have rendered : Yields (Draft.Ready registry []) Balanced (x.projection compile) :=
      x.projection_yields hc (valid x (List.mem_filter.1 hx).1)
    refine (rendered.tidy x.projection_appends).bind fun sql balanced => ?_
    refine .then (preserves_aside fun _ => ⟨⟨rfl, rfl, rfl, rfl⟩, rfl⟩) fun _ => ?_
    exact yields_pure balanced
  refine (yields_mapM each).bind fun list balanced => ?_
  exact (writeList_preserves balanced).then fun _ => moveTo_preserves .select

theorem defaultList_yields {e : Entity} (valid : e.IsValid) :
    Yields (Draft.Tidy registry) (fun list => Balanced (ofString list)) (defaultList e) := by
  refine yields_get.bind fun d hd => .ite (fun _ => ?_) fun _ => ?_
  · obtain ⟨⟨e', he', list⟩, cache⟩ := hd.ready.cache.fetch valid
    have kept : Balanced (ofString (d.cache.fetch e).1) := by
      rw [list]
      exact he'.selectList_sound.balanced
    have tidy : Draft.Tidy registry { d with cache := (d.cache.fetch e).2 } :=
      ⟨⟨hd.ready.registry, cache, hd.ready.parameters⟩, hd.sql⟩
    exact (yields_set tidy).then fun _ => yields_pure kept
  · exact yields_pure valid.selectList_sound.balanced

theorem writePendingList_preserves {e : Entity} (valid : e.IsValid) :
    Preserves (Draft.Tidy registry) (writePendingList e) := by
  refine yields_get.bind fun d _ => .ite (fun _ => ?_) fun _ => yields_pure trivial
  refine (defaultList_yields valid).bind fun list balanced => (write_preserves balanced).then ?_
  exact fun _ => preserves_aside fun _ => ⟨⟨rfl, rfl, rfl, rfl⟩, rfl⟩

theorem fromEntity_preserves {e : Entity} (valid : e.IsValid) :
    Preserves (Draft.Tidy registry) (fromEntity e) := by
  have keyword : Balanced (ofString " FROM ") := fun _ => rfl
  refine (preserves_expect .from).then fun _ => ?_
  refine (checkPermission_preserves e .select).then fun _ => ?_
  refine (writePendingList_preserves valid).then fun _ => ?_
  refine (write_preserves (balanced_name keyword valid.table)).then fun _ => ?_
  refine .then (preserves_aside fun _ => ⟨⟨rfl, rfl, rfl, rfl⟩, rfl⟩) fun _ => ?_
  exact moveTo_preserves .from

theorem onClause_yields (hc : Balances registry compile) (kind : JoinKind) (e : Entity)
    {on : Option Expression}
    (valid : ∀ x ∈ on.toList, ∀ p ∈ x.parts, p.IsValid Command.IsBalanced registry)
    {base : List Parameter} :
    Yields (Draft.Ready registry base) Balanced (onClause compile kind e on) := by
  have keyword : Balanced (ofString " ON ") := fun _ => rfl
  refine .ite (fun _ => ?_) fun _ => yields_pure balanced_nil
  cases on with
  | none => exact yields_throw _
  | some x =>
    refine (x.predicate_balanced hc (valid x (by simp))).bind fun sql balanced => ?_
    exact .ite (fun _ => yields_throw _) fun _ => yields_pure (keyword.append balanced)

theorem joinEntity_preserves (hc : Balances registry compile) (kind : JoinKind) {e : Entity}
    {on : Option Expression} (he : e.IsValid)
    (valid : ∀ x ∈ on.toList, ∀ p ∈ x.parts, p.IsValid Command.IsBalanced registry) :
    Preserves (Draft.Tidy registry) (joinEntity compile kind e on) := by
  have keyword : Balanced (ofString s!" {kind.sql} ") := by
    cases kind <;> exact fun _ => rfl
  refine (preserves_expect .join).then fun _ => ?_
  refine (checkPermission_preserves e .select).then fun _ => ?_
  refine ((onClause_yields hc kind e valid).tidy (onClause_appends kind e on)).bind ?_
  intro condition balanced
  refine (write_preserves ?_).then fun _ => moveTo_preserves .join
  exact (balanced_name keyword he.table).append balanced

/-- A condition in parentheses behind its keyword or connective. -/
theorem balanced_condition {keyword : String} (first : Bool) (x : Expression) {sql : Sql}
    (opens : LeavesOpen 1 (ofString keyword)) (balanced : Balanced sql) :
    Balanced (ofString (opener keyword first x) ++ sql ++ ofString ")") := by
  have before : LeavesOpen 1 (ofString (opener keyword first x)) := by
    unfold opener
    split
    · exact opens
    · split <;> exact fun _ => rfl
  exact (before.append balanced).close

theorem addWhere_preserves (x : Expression) {sql : Sql} (balanced : Balanced sql) :
    Preserves (Draft.Tidy registry) (addWhere x sql) := by
  refine .ite (fun _ => yields_get.bind fun d _ => ?_) fun _ => yields_pure trivial
  refine .then (preserves_aside fun _ => ⟨⟨rfl, rfl, rfl, rfl⟩, rfl⟩) fun _ => ?_
  exact write_preserves (balanced_condition _ x (fun _ => rfl) balanced)

theorem addHaving_preserves (x : Expression) {sql : Sql} (balanced : Balanced sql) :
    Preserves (Draft.Tidy registry) (addHaving x sql) := by
  refine .ite (fun _ => yields_get.bind fun d _ => ?_) fun _ => yields_pure trivial
  refine .then (preserves_aside fun _ => ⟨⟨rfl, rfl, rfl, rfl⟩, rfl⟩) fun _ => ?_
  exact write_preserves (balanced_condition _ x (fun _ => rfl) balanced)

section Conditions

variable {x : Expression} (hc : Balances registry compile)
  (valid : ∀ p ∈ x.parts, p.IsValid Command.IsBalanced registry)
include hc valid

theorem predicate_tidy : Yields (Draft.Tidy registry) Balanced (x.predicate compile) :=
  (x.predicate_balanced hc valid).tidy x.predicate_appends

theorem filterBy_preserves : Preserves (Draft.Tidy registry) (filterBy compile x) := by
  refine (preserves_expect .where).then fun _ => ?_
  refine (predicate_tidy hc valid).bind fun sql balanced => ?_
  exact (addWhere_preserves x balanced).then fun _ => moveTo_preserves .where

theorem havingBy_preserves : Preserves (Draft.Tidy registry) (havingBy compile x) := by
  refine (preserves_expect .having).then fun _ => ?_
  refine (predicate_tidy hc valid).bind fun sql balanced => ?_
  exact (addHaving_preserves x balanced).then fun _ => moveTo_preserves .having

end Conditions

theorem list_yields {ι : Type} {f : ι → Build Sql} {is : List ι}
    (each : ∀ i ∈ is, Yields (Draft.Ready registry []) Balanced (f i))
    (appends : ∀ i, Keeps Draft.Appends (f i)) :
    Yields (Draft.Tidy registry) (fun list => Balanced (join ", " list)) (is.mapM f) := by
  have comma := Expression.separates_comma.balanced
  have tidy : ∀ i ∈ is, Yields (Draft.Tidy registry) Balanced (f i) :=
    fun i hi => (each i hi).tidy (appends i)
  exact (yields_mapM tidy).mono fun list balanced => balanced_join comma balanced

theorem nonEmptyList_yields {inv : Draft → Prop} (clause : Clause) {list : List Sql}
    (balanced : Balanced (join ", " list)) : Yields inv Balanced (nonEmptyList clause list) :=
  .ite (fun _ => yields_throw _) fun _ => yields_pure balanced

theorem groupBy_preserves {properties : List Expression}
    (valid : ∀ x ∈ properties, ∀ p ∈ x.parts, p.IsValid Command.IsBalanced registry) :
    Preserves (Draft.Tidy registry) (groupBy properties) := by
  have keyword : Balanced (ofString " GROUP BY ") := fun _ => rfl
  have each : ∀ x ∈ properties.filter (!·.isEmpty),
      Yields (Draft.Ready registry []) Balanced x.reference := fun x hx =>
    (x.reference_yields (valid x (List.mem_filter.1 hx).1)).mono fun _ term => term.balanced
  refine (preserves_expect .groupBy).then fun _ => ?_
  refine (list_yields each fun x => x.reference_appends).bind fun list balanced => ?_
  refine (nonEmptyList_yields .groupBy balanced).bind fun sql balanced => ?_
  exact (write_preserves (keyword.append balanced)).then fun _ => moveTo_preserves .groupBy

theorem sortKey_yields {x : Expression}
    (valid : ∀ p ∈ x.parts, p.IsValid Command.IsBalanced registry) :
    Yields (Draft.Ready registry []) Balanced (sortKey x) := by
  refine (x.reference_yields valid).bind fun sql term => ?_
  split
  · next order _ =>
    have direction : Balanced (ofString s!" {order.sql}") := by
      cases order <;> exact fun _ => rfl
    exact yields_pure (term.balanced.append direction)
  · exact yields_pure term.balanced

theorem balanced_opener {c : Prop} [Decidable c] {first later : String}
    (hf : Balanced (ofString first)) (hl : Balanced (ofString later)) :
    Balanced (ofString (if c then later else first)) := by
  split
  · exact hl
  · exact hf

theorem orderBy_preserves {properties : List Expression}
    (valid : ∀ x ∈ properties, ∀ p ∈ x.parts, p.IsValid Command.IsBalanced registry) :
    Preserves (Draft.Tidy registry) (orderBy properties) := by
  have comma := Expression.separates_comma.balanced
  have keyword : Balanced (ofString " ORDER BY ") := fun _ => rfl
  have each : ∀ x ∈ properties.filter (!·.isEmpty),
      Yields (Draft.Ready registry []) Balanced (sortKey x) :=
    fun x hx => sortKey_yields (valid x (List.mem_filter.1 hx).1)
  refine (preserves_expect .orderBy).then fun _ => ?_
  refine (list_yields each sortKey_appends).bind fun list balanced => ?_
  refine (nonEmptyList_yields .orderBy balanced).bind fun sql balanced => ?_
  refine yields_get.bind fun d _ => ?_
  refine (write_preserves ((balanced_opener keyword comma).append balanced)).then fun _ => ?_
  exact moveTo_preserves .orderBy

theorem insertInto_preserves {e : Entity} {properties : List Expression} (he : e.IsValid)
    (valid : ∀ x ∈ properties, ∀ p ∈ x.parts, p.IsValid Command.IsBalanced registry) :
    Preserves (Draft.Tidy registry) (insertInto e properties) := by
  refine (preserves_expect .insert).then fun _ => (checkTarget_preserves e .insert).then fun _ => ?_
  refine .then (preserves_aside fun _ => ⟨⟨rfl, rfl, rfl, rfl⟩, rfl⟩) fun _ => ?_
  have checks : ∀ x ∈ insertList e properties, Preserves (Draft.Tidy registry)
      (do checkColumn x; x.checkPermission .insert) := fun x _ =>
    (checkColumn_preserves x).then fun _ => x.checkPermission_preserves .insert
  have names : ∀ name ∈ (insertList e properties).filterMap fun x => x.column.map (·.column),
      Identifier.check name = .ok () := by
    intro name mem
    obtain ⟨x, hx, eq⟩ := List.mem_filterMap.1 mem
    obtain ⟨c, hc, rfl⟩ := Option.map_eq_some_iff.1 eq
    exact (insertList_valid he valid x hx c hc).column
  refine (preserves_forM checks).then fun _ => .ite (fun _ => yields_throw_bind _ _) fun _ => ?_
  refine (write_preserves (insertText_sound he.table names).balanced).then fun _ => ?_
  refine .then (preserves_aside fun _ => ⟨⟨rfl, rfl, rfl, rfl⟩, rfl⟩) fun _ => ?_
  exact moveTo_preserves .insert

theorem bindValue_balanced (column : Option ColumnRef) (value : SqlValue) :
    Yields (Draft.Ready registry []) Balanced (bindValue column value) := by
  refine (bindValue_yields column value).mono ?_
  rintro _ ⟨number, rfl⟩
  exact balanced_place number

theorem appendRow_preserves (row : List SqlValue) :
    Preserves (Draft.Tidy registry) (appendRow row) := by
  have comma := Expression.separates_comma.balanced
  have keyword : Balanced (ofString " VALUES ") := fun _ => rfl
  refine yields_get.bind fun d _ => .ite (fun _ => yields_throw_bind _ _) fun _ => ?_
  refine (list_yields (fun _ _ => bindValue_balanced _ _) fun _ => bindValue_appends _ _).bind ?_
  intro list balanced
  refine (write_preserves ((balanced_opener keyword comma).append balanced.parenthesize)).then ?_
  exact fun _ => moveTo_preserves .values

theorem valuesRow_preserves (row : List SqlValue) :
    Preserves (Draft.Tidy registry) (valuesRow row) :=
  (preserves_expect .values).then fun _ => appendRow_preserves row

theorem valuesRecord_preserves (record : Record) :
    Preserves (Draft.Tidy registry) (valuesRecord record) := by
  refine (preserves_expect .values).then fun _ => yields_get.bind fun d _ => ?_
  have found := keeps_mapM (r := Eq) (fun x => keeps_orFail (recordValue? record x)
    (.ordering (.missingValue x.property))) d.insertColumns
  exact (found.preserves fun d d' same hd => same ▸ hd).then appendRow_preserves

theorem beginWith_preserves (clause : Clause) (kind : StatementKind) {keyword : String}
    {e : Entity} (balanced : Balanced (ofString keyword)) (he : e.IsValid) :
    Preserves (Draft.Tidy registry) (beginWith clause kind keyword e) := by
  refine (preserves_expect clause).then fun _ => (checkTarget_preserves e kind).then fun _ => ?_
  refine (write_preserves (balanced_name balanced he.table)).then fun _ => ?_
  refine .then (preserves_aside fun _ => ⟨⟨rfl, rfl, rfl, rfl⟩, rfl⟩) fun _ => ?_
  exact moveTo_preserves clause

theorem setColumn_preserves {x : Expression} (operation : UpdateOperation)
    (valid : ∀ p ∈ x.parts, p.IsValid Command.IsBalanced registry) :
    Preserves (Draft.Tidy registry) (setColumn x operation) := by
  have comma := Expression.separates_comma.balanced
  have keyword : Balanced (ofString " SET ") := fun _ => rfl
  refine (preserves_expect .set).then fun _ => (checkColumn_preserves x).then fun _ => ?_
  refine (x.checkPermission_preserves .update).then fun _ => ?_
  refine (yields_orFail x.column _).bind fun column found => ?_
  have bound : Yields (Draft.Tidy registry) Balanced (bindValue (some column) operation.value) :=
    (bindValue_balanced _ _).tidy (bindValue_appends _ _)
  refine bound.bind fun value balanced => yields_get.bind fun d _ => ?_
  have names : column.IsValid := valid _ (Expression.column_mem_parts found)
  have assignment : LeavesOpen 0 (ofString (operation.assignment column.column)) :=
    (opens_assignment names.column).leavesOpen
  refine (write_preserves ?_).then fun _ => moveTo_preserves .set
  exact ((balanced_opener keyword comma).append assignment).append balanced

theorem unionWith_preserves {keyword : String} (balanced : Balanced (ofString keyword)) :
    Preserves (Draft.Tidy registry) (unionWith keyword) := by
  refine (preserves_expect .union).then fun _ => (write_preserves balanced).then fun _ => ?_
  refine .then (preserves_aside fun _ => ⟨⟨rfl, rfl, rfl, rfl⟩, rfl⟩) fun _ => ?_
  exact moveTo_preserves .union

end Build

theorem Call.make_preserves (hc : Balances registry compile) {c : Call}
    (valid : c.IsValid Command.IsBalanced registry) :
    Preserves (Draft.Tidy registry) (c.make compile) := by
  obtain ⟨expressions, entity⟩ := valid
  cases c with
  | select properties | selectDistinct properties | selectPropertiesLimit properties limit =>
    exact selectBlock_preserves hc expressions _ _
  | selectLimit limit => exact selectBlock_preserves hc (by simp) _ _
  | «from» e => exact fromEntity_preserves (entity e rfl)
  | join kind e on => exact joinEntity_preserves hc kind (entity e rfl) expressions
  | filter x => exact filterBy_preserves hc (expressions x List.mem_cons_self)
  | groupBy properties => exact groupBy_preserves expressions
  | having x => exact havingBy_preserves hc (expressions x List.mem_cons_self)
  | orderBy properties => exact orderBy_preserves expressions
  | insert e properties => exact insertInto_preserves (entity e rfl) expressions
  | values row => exact valuesRow_preserves row
  | valuesRecord record => exact valuesRecord_preserves record
  | update e | delete e | truncate e =>
    exact beginWith_preserves _ _ (fun _ => rfl) (entity e rfl)
  | set x operation => exact setColumn_preserves operation (expressions x List.mem_cons_self)
  | union | unionAll => exact unionWith_preserves fun _ => rfl
  | paginate page => exact preserves_aside fun _ => ⟨⟨rfl, rfl, rfl, rfl⟩, rfl⟩

theorem Build.finish_yields : Yields (Draft.Tidy registry) Command.IsBalanced finish := by
  refine (yields_get.bind fun d hd => ?_).guarded
  split
  · next command eq =>
    obtain ⟨_, rfl⟩ := Draft.finished_eq eq
    obtain ⟨added, parameters, names⟩ := hd.ready.parameters
    have text := (hd.sql.append d.limitText_continues.balanced).append d.pageText_continues.balanced
    refine yields_pure ⟨text.text d.dialect, fun p hp => names p ?_⟩
    simpa [parameters] using hp
  · exact yields_throw _

namespace Query

theorem replay_preserves (hc : Balances registry compile) {q : Query}
    (valid : ∀ p ∈ q.parts, p.IsValid Command.IsBalanced registry) :
    Preserves (Draft.Tidy registry) (q.replay compile) := by
  obtain ⟨calls, page⟩ := q
  rw [parts, recordedParts_eq] at valid
  have paged : Preserves (Draft.Tidy registry) (setPage compile ⟨calls, page⟩) := by
    cases page with
    | none => exact yields_pure trivial
    | some page =>
      have made := Call.make_preserves hc (c := .paginate page)
        ⟨by simp [Call.expressions], by simp [Call.entity?]⟩
      exact made.guarded
  refine paged.then fun _ => preserves_forM fun record hr => yields_get.bind fun d hd => ?_
  split
  · next call eq =>
    rw [hd.ready.registry] at eq
    have parts := fun p hp => valid p (List.mem_flatMap.2 ⟨record, hr, hp⟩)
    exact (Call.make_preserves hc (RecordedCall.call_isValid parts eq)).guarded
  · exact yields_throw _

theorem compileWithin_balances (levels : Nat) : Balances registry (compileWithin levels) := by
  induction levels with
  | zero => exact fun _ _ => finish_yields
  | succ levels ih => exact fun _ valid => (replay_preserves ih valid).then fun _ => finish_yields

/-- The commands of queries with valid parts are balanced. -/
theorem compile_balances : Balances registry Query.compile := by
  intro q valid
  rw [Query.compile]
  exact compileWithin_balances _ q valid

end Query
end DmlCompiler
