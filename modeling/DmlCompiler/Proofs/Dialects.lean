import DmlCompiler.Proofs.Coupling.Dialects
import DmlCompiler.Proofs.Placeholders

/-! # One recording for all dialects

A recording without row limits is compiled for every dialect with the same outcome: the same error,
or commands of the same kind and page with the same parameters under other names. Their texts come
from one template, as long as no finished text inside of a recorded sub-query has placeholders that
are not its own. -/
namespace DmlCompiler

open Build Sql

/-- The names behind recorded sub-queries are identifiers, and the commands in these are numbered
ones. A query without recorded sub-queries has no such names. -/
def Query.NestsValid (registry : Registry) (cache : SelectCache) (q : Query) : Prop :=
  ∀ r, .deferred r ∈ q.subQueries →
    cache.IsValid ∧
    (∀ name, .entity name ∈ q.parts → ∀ e ∈ registry.entity? name, e.IsValid) ∧
    ∀ part ∈ r.parts, part.IsValid (Numbered False) registry

def Query.commandFor (q : Query) (registry : Registry) (options : Options) (cache : SelectCache)
    (dialect : Dialect) : Except QueryError Command :=
  ((Draft.new dialect registry options cache).compile q).1

theorem dialects_agree {q : Query} (unlimited : q.Unlimited) (registry : Registry)
    (options : Options) (cache : SelectCache) (left right : Dialect) :
    (∃ u, q.commandFor registry options cache left = .error u ∧
      q.commandFor registry options cache right = .error u) ∨
    ∃ c c', q.commandFor registry options cache left = .ok c ∧
      q.commandFor registry options cache right = .ok c' ∧
      c'.kind = c.kind ∧ c'.page = c.page ∧
      c'.parameters.map Parameter.content = c.parameters.map Parameter.content ∧
      (q.NestsValid registry cache →
        ∃ t : Template, c.sql = (t.render left).text left ∧ c'.sql = (t.render right).text right) := by
  let p : Pairing :=
    { left := left
      right := right
      registry := registry
      isTemplated := q.NestsValid registry cache
      isNamed := (∃ r, .deferred r ∈ q.subQueries) ∧ q.NestsValid registry cache }
  have named : p.isNamed → cache.IsValid ∧
      ∀ name, .entity name ∈ q.parts → ∀ e ∈ registry.entity? name, e.IsValid := by
    rintro ⟨⟨r, hr⟩, nests⟩
    obtain ⟨lists, entities, _⟩ := nests r hr
    exact ⟨lists, entities⟩
  have beside : (Coupling.dialects p).Beside (.new left registry options cache)
      (.new right registry options cache) := by
    refine ⟨⟨right, options, cache, [], [], rfl⟩, ?_, .same []⟩
    exact ⟨rfl, rfl, rfl, rfl, rfl, rfl, fun isNamed => (named isNamed).1⟩
  have run := Coupling.dialects_compile (p := p) unlimited (fun nested valid => ⟨nested, valid⟩)
    (fun isNamed => (named isNamed).2) fun nests r hr => (nests r hr).2.2
  rcases run beside with ⟨c, d', c', e', given, given', _, beside'⟩ | ⟨u, d', failed, impossible | ⟨e', failed'⟩⟩
  · right
    have finished := Coupling.dialects_finished beside' (Query.compile_gives given)
      (Query.compile_gives given')
    refine ⟨c, c', congrArg Prod.fst given, congrArg Prod.fst given', finished.kind, finished.page,
      finished.contents, fun nests => ?_⟩
    obtain ⟨a, b, fragment, text, text'⟩ := finished.text
    obtain ⟨t, rfl, rfl⟩ := fragment.template nests
    exact ⟨t, text, text'⟩
  · exact impossible.elim
  · left
    exact ⟨u, congrArg Prod.fst failed, congrArg Prod.fst failed'⟩

def recordedOrders (page : Option Page) (operator : Operator) (argument : Argument) : Query :=
  { Query.ofCalls (ordersWhere operator argument) with page := page }

def amountOr (amount : Int32) (q : SubQuery) : Argument :=
  .list [.value (.integer amount), .subQuery q]

section Recorded

variable {page : Option Page} {operator : Operator} {argument : Argument}

theorem recordedOrders_subQueries :
    (recordedOrders page operator argument).subQueries = argument.subQueries := by
  simp [recordedOrders, Query.subQueries, RecordedCall.subQueries, ordersWhere, Query.ofCalls,
    Query.record, Query.empty, Call.recorded?, RecordedCall.expressions, CallArgument.expressions,
    Expression.compare, Expression.bare, Expression.subQueries, argumentSubQueries,
    expressionSubQueries]

theorem recordedOrders_parts {part : Part} (h : part ∈ (recordedOrders page operator argument).parts) :
    part = .entity Entity.queryResult.name ∨
      part = .column ⟨"Orders", "Amount", .decimal, none, .all⟩ ∨ part ∈ argument.parts := by
  simpa [recordedOrders, Query.parts, recordedParts, RecordedCall.parts, callArgumentParts,
    ordersWhere, Query.ofCalls, Query.record, Query.empty, Call.recorded?, CallArgument.parts,
    Expression.compare, Expression.bare, Expression.parts, argumentParts, expressionParts] using h

theorem recordedOrders_unlimited (inner : ∀ r, .deferred r ∈ argument.subQueries → r.Unlimited) :
    (recordedOrders page operator argument).Unlimited := by
  constructor
  · intro record hr
    simp only [recordedOrders, ordersWhere, Query.ofCalls, Query.record, Query.empty,
      Call.recorded?, List.foldl_cons, List.foldl_nil, List.nil_append, Option.toList_some,
      List.cons_append, List.mem_cons, List.not_mem_nil, or_false] at hr
    rcases hr with rfl | rfl | rfl <;> rfl
  · rw [recordedOrders_subQueries]
    exact inner

end Recorded

def largePage : Query :=
  recordedOrders (some ⟨some 10, none⟩) .greaterThan (.value (.integer 7))

def firstLarge : Query := recordedOrders none .isIn (amountOr 5 (.deferred largePage))

theorem firstLarge_subQueries : firstLarge.subQueries = [.deferred largePage] := by
  rw [firstLarge, recordedOrders_subQueries]
  rfl

theorem firstLarge_unlimited : firstLarge.Unlimited := by
  apply recordedOrders_unlimited
  intro r hr
  cases List.mem_singleton.1 hr
  apply recordedOrders_unlimited
  intro r hr
  cases hr

theorem firstLarge_nestsValid : firstLarge.NestsValid (.new true) [] := by
  have result : Entity.queryResult.IsValid := ⟨by decide +kernel, by simp [Entity.queryResult]⟩
  have known : ∀ e ∈ (Registry.new true).entity? Entity.queryResult.name, e.IsValid := by
    intro e he
    cases Option.some.inj he
    exact result
  intro r hr
  rw [firstLarge_subQueries] at hr
  cases List.mem_singleton.1 hr
  refine ⟨by simp [SelectCache.IsValid], ?_, ?_⟩
  · intro name hname
    rcases recordedOrders_parts hname with eq | eq | inner
    · cases eq
      exact known
    · cases eq
    · simp only [amountOr, Argument.parts, operandParts, Operand.parts, SubQuery.parts,
        List.nil_append, List.append_nil] at inner
      rcases recordedOrders_parts inner with eq | eq | inner
      · cases eq
        exact known
      · cases eq
      · cases inner
  · intro part hpart
    rcases recordedOrders_parts hpart with rfl | rfl | inner
    · exact known
    · exact ⟨by decide +kernel, by decide +kernel⟩
    · cases inner

theorem dialects_agree_nested :
    firstLarge.Unlimited ∧ firstLarge.NestsValid (.new true) [] ∧ ∃ t : Template,
      (firstLarge.commandFor (.new true) {} [] .sqlServer).map (·.sql) =
        .ok ((t.render .sqlServer).text .sqlServer) ∧
      (firstLarge.commandFor (.new true) {} [] .postgres).map (·.sql) =
        .ok ((t.render .postgres).text .postgres) := by
  refine ⟨firstLarge_unlimited, firstLarge_nestsValid, ?_⟩
  rcases dialects_agree firstLarge_unlimited (.new true) {} [] .sqlServer .postgres with
    ⟨u, failed, _⟩ | ⟨c, c', built, built', _, _, _, template⟩
  · have succeeds : (firstLarge.commandFor (.new true) {} [] .sqlServer).toOption.isSome := by
      decide +kernel
    rw [failed] at succeeds
    cases succeeds
  · obtain ⟨t, text, text'⟩ := template firstLarge_nestsValid
    refine ⟨t, ?_, ?_⟩
    · rw [built, ← text]
      rfl
    · rw [built', ← text']
      rfl

def ones (dialect : Dialect) (sql : Sql) : Nat := (chars dialect sql).count '1'

theorem ones_append (dialect : Dialect) (a b : Sql) :
    ones dialect (a ++ b) = ones dialect a + ones dialect b := by
  simp [ones]

/-- Page clauses have the same numbers, but that an offset of zero is written or left out. -/
theorem ones_pageTail (page : Option Page) (isOrdered : Bool) :
    ones .standard (ofString (Dialect.standard.pageTail page isOrdered)) =
      ones .postgres (ofString (Dialect.postgres.pageTail page isOrdered)) := by
  rcases page with _ | ⟨limit, offset⟩
  · rfl
  · have same (s : String) : toString s = s := rfl
    cases limit <;> cases offset <;>
      simp [ones, Dialect.pageTail, Dialect.needsOrder, Dialect.pageClause, Dialect.offsetFetch,
        Dialect.limitOffset, Dialect.fetchNext, Dialect.rowLimit, Page.isEmpty, same]
    omega

theorem ones_text (sql : Sql) : ones .standard sql = ones .postgres sql := by
  induction sql with
  | nil => rfl
  | cons s sql ih =>
    rw [← List.singleton_append, ones_append, ones_append, ih]
    cases s with
    | char c => rfl
    | place k => simp [ones, Dialect.parameterName_toList, Dialect.marker]

theorem Template.ones_render (t : Template) :
    ones .standard (t.render .standard) = ones .postgres (t.render .postgres) := by
  induction t with
  | text sql => exact ones_text sql
  | append first second ihFirst ihSecond =>
    simp only [render, ones_append, ihFirst, ihSecond]
  | call f inner params ihInner ihParams =>
    have opening : Dialect.standard.opening f.kind = Dialect.postgres.opening f.kind := rfl
    simp only [render, Function.around, ones_append, ihInner, ihParams, opening, ones_text]
    rfl
  | statement body page isOrdered ih =>
    simp only [render, ones_append, ih, ones_pageTail]

def literalMarker : Command := ⟨Command.anonymous, "SELECT $1", [], .select, none⟩

def literalInside : Query :=
  recordedOrders none .isIn
    (amountOr 5 (.deferred (recordedOrders none .isIn (amountOr 7 (.command literalMarker)))))

/-- The text of the command has the name of a parameter of its surroundings, which are renamed in
one dialect only. -/
theorem literal_renamed_for_postgres :
    literalInside.Unlimited ∧
    (literalInside.commandFor (.new true) {} [] .standard).map (·.sql) =
      .ok ("SELECT * FROM QueryResult WHERE (Orders.Amount IN (@p1, " ++
        "(SELECT * FROM QueryResult WHERE (Orders.Amount IN (@p2, (SELECT $1))))))") ∧
    (literalInside.commandFor (.new true) {} [] .postgres).map (·.sql) =
      .ok ("SELECT * FROM QueryResult WHERE (Orders.Amount IN ($1, " ++
        "(SELECT * FROM QueryResult WHERE (Orders.Amount IN ($2, (SELECT $2))))))") ∧
    ¬ ∃ t : Template,
      (literalInside.commandFor (.new true) {} [] .standard).map (·.sql) =
        .ok ((t.render .standard).text .standard) ∧
      (literalInside.commandFor (.new true) {} [] .postgres).map (·.sql) =
        .ok ((t.render .postgres).text .postgres) := by
  have unlimited : literalInside.Unlimited := by
    apply recordedOrders_unlimited
    intro r hr
    cases List.mem_singleton.1 hr
    apply recordedOrders_unlimited
    intro r hr
    cases List.mem_singleton.1 hr
  have standard : (literalInside.commandFor (.new true) {} [] .standard).map (·.sql) =
      .ok ("SELECT * FROM QueryResult WHERE (Orders.Amount IN (@p1, " ++
        "(SELECT * FROM QueryResult WHERE (Orders.Amount IN (@p2, (SELECT $1))))))") := by
    decide +kernel
  have postgres : (literalInside.commandFor (.new true) {} [] .postgres).map (·.sql) =
      .ok ("SELECT * FROM QueryResult WHERE (Orders.Amount IN ($1, " ++
        "(SELECT * FROM QueryResult WHERE (Orders.Amount IN ($2, (SELECT $2))))))") := by
    decide +kernel
  refine ⟨unlimited, standard, postgres, ?_⟩
  rintro ⟨t, text, text'⟩
  rw [standard] at text
  rw [postgres] at text'
  have same := t.ones_render
  simp only [ones, ← text_toList] at same
  rw [← Except.ok.inj text, ← Except.ok.inj text'] at same
  revert same
  decide +kernel

end DmlCompiler
