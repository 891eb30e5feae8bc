import DmlCompiler.Proofs.Build.Steps
import DmlCompiler.Proofs.Parts
import DmlCompiler.Proofs.Values.Queries

/-! # Replay and direct building

A replay that succeeds makes the calls that the records are read as. Calls that are recorded and
replayed on an empty draft give the command that they give when they are made on it directly, or the
same error. The page of a query is set before its calls are made; this is no difference, because no
other call looks at the page. -/
namespace DmlCompiler

open Build

namespace Call

/-- What is read from the record of a call is the call. -/
theorem call?_recorded {c : Call} {record : RecordedCall} (recorded : c.recorded? = some record)
    {dialect : Dialect} {registry : Registry}
    (resolved : ∀ e ∈ c.entity?, registry.entity? e.name = some e)
    (limited : c.limit?.isSome → dialect.hasRowLimit) :
    record.call? dialect registry = .ok c := by
  cases c with
  | paginate page => cases recorded
  | selectLimit limit | selectPropertiesLimit properties limit =>
    cases recorded
    have available := limited rfl
    simp [RecordedCall.call?, Method.isAvailable, available]
    rfl
  | «from» e | insert e properties | update e | delete e | truncate e =>
    cases recorded
    have found := resolved e rfl
    simp [RecordedCall.call?, Method.isAvailable, RecordedCall.entities, found]
    rfl
  | join kind e on =>
    cases recorded
    have found := resolved e rfl
    simp [RecordedCall.call?, Method.isAvailable, RecordedCall.entities, found]
    cases on <;> rfl
  | _ =>
    cases recorded
    rfl

end Call

def lastPage (page : Option Page) (calls : List Call) : Option Page :=
  calls.foldl (fun page c => c.page?.or page) page

theorem Query.ofCalls_eq (calls : List Call) :
    Query.ofCalls calls = ⟨calls.filterMap Call.recorded?, lastPage none calls⟩ := by
  have general (calls : List Call) : ∀ q : Query, calls.foldl record q =
      ⟨q.calls ++ calls.filterMap Call.recorded?, lastPage q.page calls⟩ := by
    induction calls with
    | nil =>
      intro q
      cases q
      simp [lastPage]
    | cons c calls ih =>
      intro q
      rw [List.foldl_cons, ih]
      cases c <;> simp [record, List.filterMap_cons, Call.recorded?, lastPage, Call.page?]
  exact general calls empty

namespace Draft

def withPage (d : Draft) (page : Option Page) : Draft := { d with page := page }

theorem alter_eq_withPage (d : Draft) (page : Option Page) :
    d.alter id (fun ending => (ending.1, page)) id = d.withPage page := d.alter_id _ _

end Draft

namespace Call

theorem make_withPage {c : Call} (other : c.page? = none) (d : Draft) (page : Option Page) :
    (c.make Query.compile).run (d.withPage page) =
      (((c.make Query.compile).run d).1, ((c.make Query.compile).run d).2.withPage page) := by
  have mirrored := c.make_mirrors (f := id) (g := fun ending => (ending.1, page)) (h := id)
    Query.compilesAlike (fun _ => by simp [ends, other]) d
  rw [c.mapValues_id, Draft.alter_eq_withPage, Draft.alter_eq_withPage] at mirrored
  rw [mirrored]
  cases ((c.make Query.compile).run d).1 <;> rfl

theorem make_page {c : Call} (other : c.page? = none) (d : Draft) :
    ((c.make Query.compile).run d).2.page = d.page := by
  have same := make_withPage other d d.page
  have self : d.withPage d.page = d := rfl
  rw [self] at same
  exact congrArg (fun ran => ran.2.page) same

end Call

/-- Replaying the record of a call is making the call. -/
theorem RecordedCall.replay_eq {c : Call} {record : RecordedCall}
    (recorded : c.recorded? = some record) {d : Draft}
    (resolved : ∀ e ∈ c.entity?, d.registry.entity? e.name = some e)
    (limited : c.limit?.isSome → d.dialect.hasRowLimit) :
    (record.replay Query.compile).run d = (guarded (c.make Query.compile)).run d := by
  have read := Call.call?_recorded recorded resolved limited
  rw [replay, run_get_bind, read]

section Reading

variable {dialect : Dialect} {registry : Registry} {d d' : Draft} {u : Unit}

/-- The calls that a query stands for: that of its page, then those that are recorded in it. -/
def Query.calls? (q : Query) (dialect : Dialect) (registry : Registry) :
    Except QueryError (List Call) := do
  return (q.page.map Call.paginate).toList ++ (← q.calls.mapM (·.call? dialect registry))

theorem Query.calls?_eq_ok {q : Query} {calls : List Call} :
    q.calls? dialect registry = .ok calls ↔
      ∃ read, q.calls.mapM (·.call? dialect registry) = .ok read ∧
        calls = (q.page.map Call.paginate).toList ++ read := by
  unfold calls?
  cases q.calls.mapM (·.call? dialect registry) with
  | error e => simp [bind, Except.bind]
  | ok read => simp [bind, Except.bind, pure, Except.pure, eq_comm]

theorem Query.mem_calls? {q : Query} {calls : List Call} {c : Call}
    (read : q.calls? dialect registry = .ok calls) (mem : c ∈ calls) :
    (∃ page, c = .paginate page) ∨
      ∃ record ∈ q.calls, record.call? dialect registry = .ok c := by
  obtain ⟨inner, eq, rfl⟩ := calls?_eq_ok.1 read
  rcases List.mem_append.1 mem with mem | mem
  · obtain ⟨page, _, rfl⟩ := Option.map_eq_some_iff.1 (Option.mem_toList.1 mem)
    exact .inl ⟨page, rfl⟩
  · exact .inr (mem_of_mapM eq c mem)

theorem RecordedCall.replayAll_gives {records : List RecordedCall} (here : d.IsFor dialect registry)
    (given : Gives (records.forM (·.replay Query.compile)) d u d') :
    ∃ calls, records.mapM (·.call? dialect registry) = .ok calls ∧
      Gives (makeAll calls) d u d' := by
  induction records generalizing d with
  | nil => exact ⟨[], rfl, given⟩
  | cons record records ih =>
    obtain ⟨_, d₁, first, rest⟩ := gives_bind.1 given
    unfold replay at first
    rw [gives_get_bind, here.dialect, here.registry] at first
    split at first
    · next call read =>
      have same : d.SameGround d₁ := call.make_ground.guarded first
      obtain ⟨calls, later, made⟩ := ih (same.isFor here) rest
      refine ⟨call :: calls, ?_, gives_bind.2 ⟨(), d₁, first, made⟩⟩
      rw [List.mapM_cons, read, later]
      rfl
    · exact (gives_throw.1 first).elim

theorem RecordedCall.gives_replayAll {records : List RecordedCall} {calls : List Call}
    (here : d.IsFor dialect registry)
    (read : records.mapM (·.call? dialect registry) = .ok calls)
    (made : Gives (makeAll calls) d u d') :
    Gives (records.forM (·.replay Query.compile)) d u d' := by
  induction records generalizing d calls with
  | nil =>
    cases read
    exact made
  | cons record records ih =>
    rw [List.mapM_cons] at read
    rcases first : record.call? dialect registry with e | call
    · rw [first] at read
      cases read
    rcases later : records.mapM (·.call? dialect registry) with e | calls'
    · rw [first, later] at read
      cases read
    rw [first, later] at read
    cases read
    obtain ⟨_, d₁, called, rest⟩ := gives_bind.1 made
    have same : d.SameGround d₁ := call.make_ground.guarded called
    refine gives_bind.2 ⟨(), d₁, ?_, ih (same.isFor here) later rest⟩
    show Gives (record.replay Query.compile) d () d₁
    rw [replay, gives_get_bind, here.dialect, here.registry, first]
    exact called

/-- A replay that succeeds makes the calls that the query stands for. -/
theorem Query.replay_gives {q : Query} (here : d.IsFor dialect registry)
    (given : Gives (q.replay Query.compile) d u d') :
    ∃ calls, q.calls? dialect registry = .ok calls ∧ Gives (makeAll calls) d u d' := by
  obtain ⟨records, page⟩ := q
  obtain ⟨_, d₁, paged, replayed⟩ := gives_bind.1 given
  cases page with
  | none =>
    obtain ⟨_, rfl⟩ := gives_pure.1 paged
    obtain ⟨read, eq, made⟩ := RecordedCall.replayAll_gives here replayed
    exact ⟨read, calls?_eq_ok.2 ⟨read, eq, rfl⟩, made⟩
  | some page =>
    have set : Gives (guarded ((Call.paginate page).make Query.compile)) d () d₁ := paged
    have same : d.SameGround d₁ := (Call.paginate page).make_ground.guarded set
    obtain ⟨read, eq, made⟩ := RecordedCall.replayAll_gives (same.isFor here) replayed
    refine ⟨.paginate page :: read, calls?_eq_ok.2 ⟨read, eq, rfl⟩, ?_⟩
    exact gives_bind.2 ⟨(), d₁, set, made⟩

/-- Where these calls succeed the replay does. -/
theorem Query.gives_replay {q : Query} {calls : List Call} (here : d.IsFor dialect registry)
    (read : q.calls? dialect registry = .ok calls) (made : Gives (makeAll calls) d u d') :
    Gives (q.replay Query.compile) d u d' := by
  obtain ⟨records, page⟩ := q
  obtain ⟨inner, eq, rfl⟩ := calls?_eq_ok.1 read
  cases page with
  | none => exact gives_bind.2 ⟨(), d, rfl, RecordedCall.gives_replayAll here eq made⟩
  | some page =>
    obtain ⟨_, d₁, set, rest⟩ := gives_bind.1 made
    have same : d.SameGround d₁ := (Call.paginate page).make_ground.guarded set
    exact gives_bind.2 ⟨(), d₁, set, RecordedCall.gives_replayAll (same.isFor here) eq rest⟩

end Reading

namespace Draft

theorem build_cons (d : Draft) (c : Call) (calls : List Call) :
    d.build (c :: calls) = match d.call c with
      | (.ok _, d') => d'.build calls
      | (.error e, d') => (.error e, d') := by
  unfold build
  have first : (do Build.makeAll (c :: calls); finish : Build Command) =
      guarded (c.make Query.compile) >>= fun _ => (do Build.makeAll calls; finish) :=
    bind_assoc _ _ _
  rw [first, run_bind, call]
  rcases (guarded (c.make Query.compile)).run d with ⟨_ | _, _⟩ <;> rfl

def rebuild (d : Draft) (records : List RecordedCall) : Except QueryError Command × Draft :=
  (do
    records.forM (·.replay Query.compile)
    finish : Build Command).run d

theorem rebuild_cons (d : Draft) (record : RecordedCall) (records : List RecordedCall) :
    d.rebuild (record :: records) = match (record.replay Query.compile).run d with
      | (.ok _, d') => d'.rebuild records
      | (.error e, d') => (.error e, d') := by
  unfold rebuild
  have first : (do (record :: records).forM (·.replay Query.compile); finish : Build Command) =
      record.replay Query.compile >>= fun _ =>
        (do records.forM (·.replay Query.compile); finish) := bind_assoc _ _ _
  rw [first, run_bind]
  rcases (record.replay Query.compile).run d with ⟨_ | _, _⟩ <;> rfl

/-- A query is compiled by replaying its records on the draft with its page. -/
theorem compile_eq (d : Draft) (healthy : d.failure = none) (q : Query) :
    d.compile q = (d.withPage (q.page.or d.page)).rebuild q.calls := by
  unfold compile
  rw [Query.compile_eq, Query.replay]
  obtain ⟨calls, page⟩ := q
  cases page with
  | none => rfl
  | some page =>
    have set : (Query.setPage Query.compile ⟨calls, some page⟩).run d =
        (.ok (), d.withPage (some page)) := by
      simp only [Query.setPage]
      rw [run_guarded healthy]
      rfl
    rw [bind_assoc, run_bind, set]
    rfl

variable {dialect : Dialect} {registry : Registry}

/-- Made directly, with pages among them, the calls give what their records give when the last
page is set before them. -/
theorem build_eq_rebuild (calls : List Call)
    (resolved : ∀ c ∈ calls, ∀ e ∈ c.entity?, registry.entity? e.name = some e)
    (limited : ∀ c ∈ calls, c.limit?.isSome → dialect.hasRowLimit) :
    ∀ d : Draft, d.dialect = dialect → d.registry = registry → d.failure = none →
      ((d.withPage (lastPage d.page calls)).rebuild (calls.filterMap Call.recorded?)).1 =
        (d.build calls).1 := by
  induction calls with
  | nil => exact fun _ _ _ _ => rfl
  | cons c calls ih =>
    intro d hd hr healthy
    have later := ih (fun b hb => resolved b (List.mem_cons_of_mem _ hb))
      (fun b hb => limited b (List.mem_cons_of_mem _ hb))
    rw [build_cons, call, run_guarded healthy]
    cases recorded : c.recorded? with
    | none =>
      -- only a page has no record; it is set again by what follows
      obtain ⟨page, rfl⟩ : ∃ page, c = .paginate page := by
        cases c <;> first | exact ⟨_, rfl⟩ | cases recorded
      rw [List.filterMap_cons_none recorded]
      exact later (d.withPage (some page)) hd hr healthy
    | some record =>
      have other : c.page? = none := by cases c <;> first | rfl | cases recorded
      have page : lastPage d.page (c :: calls) = lastPage d.page calls := by
        rw [lastPage, List.foldl_cons, other]
        rfl
      have replayed := RecordedCall.replay_eq recorded (d := d.withPage (lastPage d.page calls))
        (fun e he => (congrArg (·.entity? e.name) hr).trans (resolved c List.mem_cons_self e he))
        (fun set => (congrArg Dialect.hasRowLimit hd).trans (limited c List.mem_cons_self set))
      have same : (d.withPage (lastPage d.page calls)).failure = none := healthy
      rw [List.filterMap_cons_some recorded, page, rebuild_cons, replayed, run_guarded same,
        Call.make_withPage other]
      rcases ran : (c.make Query.compile).run d with ⟨e | u, d'⟩
      · rfl
      · have ground := c.make_ground ran
        have kept : d'.page = d.page := by
          have kept := Call.make_page other d
          rwa [ran] at kept
        have rest := later d' (ground.dialect.trans hd) (ground.registry.trans hr)
          (ground.failure.trans healthy)
        rwa [kept] at rest

end Draft

/-- On a draft for whose dialect and registry the calls are made, recording them and compiling
the query is the same as building with them. -/
theorem replay_agrees_with_building (dialect : Dialect) (registry : Registry) (options : Options)
    (cache : SelectCache) (calls : List Call)
    (resolved : ∀ c ∈ calls, ∀ e ∈ c.entity?, registry.entity? e.name = some e)
    (limited : ∀ c ∈ calls, c.limit?.isSome → dialect.hasRowLimit) :
    ((Draft.new dialect registry options cache).compile (.ofCalls calls)).1 =
      ((Draft.new dialect registry options cache).build calls).1 := by
  have fresh : (Draft.new dialect registry options cache).page = none := rfl
  rw [Draft.compile_eq _ rfl, Query.ofCalls_eq, fresh, Option.or_none]
  exact Draft.build_eq_rebuild calls resolved limited _ rfl rfl rfl

def pagedSelection : List Call :=
  let amount : ColumnRef := ⟨"Orders", "Amount", .decimal, none, .all⟩
  let largest : Query := .ofCalls [.selectLimit 3, .from .queryResult]
  let amounts : Expression :=
    { Expression.bare "Order" "Amount" (some amount) with
      operator := some .isIn
      argument := some (.list [.value .null, .subQuery (.deferred largest)]) }
  [.paginate ⟨some 5, none⟩, .select [], .from .queryResult, .paginate ⟨some 10, some 20⟩,
    .filter amounts]

theorem replay_agrees_with_building_paged :
    (∀ c ∈ pagedSelection, ∀ e ∈ c.entity?, (Registry.new true).entity? e.name = some e) ∧
    (∀ c ∈ pagedSelection, c.limit?.isSome → Dialect.postgres.hasRowLimit) ∧
    ((Draft.new .postgres (.new true) {} []).build pagedSelection).1.toOption.isSome ∧
    ((Draft.new .postgres (.new true) {} []).compile (.ofCalls pagedSelection)).1 =
      ((Draft.new .postgres (.new true) {} []).build pagedSelection).1 := by
  have resolved : ∀ c ∈ pagedSelection, ∀ e ∈ c.entity?,
      (Registry.new true).entity? e.name = some e := by decide
  have limited : ∀ c ∈ pagedSelection, c.limit?.isSome → Dialect.postgres.hasRowLimit := by decide
  refine ⟨resolved, limited, ?_, replay_agrees_with_building _ _ _ _ _ resolved limited⟩
  decide +kernel

end DmlCompiler
