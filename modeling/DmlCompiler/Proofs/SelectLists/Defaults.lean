import DmlCompiler.Proofs.SelectLists
import DmlCompiler.Proofs.Selections

/-! # Selections that name no columns

The list of a selection that names no columns is left to the entity that it is from. It is that of
the columns that may be selected, wherever the selection stands and whatever lists are kept, as long
as these are faithful. Where no column may be selected the list is an asterisk, which is all of
them. -/
namespace DmlCompiler

open Build Sql

namespace Entity

variable {e : Entity}

/-- The columns that may be selected, each behind the table. -/
def permittedColumns (e : Entity) : List String :=
  (e.columns.filter (·.permissions.select)).map fun c => e.table ++ "." ++ c.column

theorem permittedColumns_eq_nil :
    e.permittedColumns = [] ↔ ∀ c ∈ e.columns, c.permissions.select = false := by
  simp [permittedColumns]

/-- Every entry of such a list has a dot in it. -/
theorem mem_of_permittedColumns (some : e.permittedColumns ≠ []) :
    '.' ∈ (", ".intercalate e.permittedColumns).toList := by
  have dotted : ∀ s ∈ e.permittedColumns, '.' ∈ s.toList := by
    intro s mem
    obtain ⟨c, _, rfl⟩ := List.mem_map.1 mem
    simp
  generalize e.permittedColumns = entries at some dotted
  cases entries with
  | nil => exact absurd rfl some
  | cons s entries =>
    have first : '.' ∈ s.toList := dotted s List.mem_cons_self
    cases entries with
    | nil => simpa using first
    | cons s' entries =>
      rw [String.intercalate_cons_cons]
      simp [first]

theorem selectList_eq (table : e.kind = .table) :
    e.selectList = if e.permittedColumns = [] then "*" else ", ".intercalate e.permittedColumns := by
  have same : e.permittedColumns = e.selectable.map fun c => (e.ref c).sql := rfl
  simp [selectList, isQueryResult, table, same]

/-- The list of a table is that of the permitted columns if there are any, and else the asterisk. -/
theorem selectList_cases (table : e.kind = .table) :
    (e.selectList = ", ".intercalate e.permittedColumns ↔ e.permittedColumns ≠ []) ∧
    (e.selectList = "*" ↔ e.permittedColumns = []) := by
  rw [selectList_eq table]
  by_cases none : e.permittedColumns = []
  · simp [none]
  · have listed : ", ".intercalate e.permittedColumns ≠ "*" := by
      intro star
      have dot := mem_of_permittedColumns none
      rw [star] at dot
      simp at dot
    simp [none, listed]

end Entity

section Calls

variable {compile : Query → Build Command} {d d' : Draft} {u : Unit} {e : Entity}

namespace Build

/-- Without entries nothing but the beginning is written, and the list is missing. -/
theorem selectBlock_leaves {s : Selection} (unnamed : s.shown = []) {limit : Option UInt64}
    (given : Gives (selectBlock compile s.entries s.distinct limit) d u d') :
    d'.sql = d.sql ++ ofString s.opening ∧ d'.listPending = true ∧ d'.cache = d.cache := by
  obtain ⟨_, d₁, expected, afterExpect⟩ := gives_bind.1 given
  obtain ⟨-, rfl⟩ := expect_gives expected
  obtain ⟨_, d₂, limited, afterLimit⟩ := gives_bind.1 afterExpect
  obtain ⟨rowLimit, rfl⟩ := limitRows_gives limited
  rw [show s.entries.filter (!·.isEmpty) = [] from unnamed] at afterLimit
  have last : d' = _ := congrArg Prod.snd afterLimit.symm
  rw [last]
  exact ⟨rfl, rfl, rfl⟩

/-- A list that was left to the entity is written before it. -/
theorem fromEntity_lists (given : Gives (fromEntity e) d u d') (pending : d.listPending = true) :
    d'.sql = d.sql ++ ofString (d.options.listOf d.cache e) ++ ofString s!" FROM {e.table}" := by
  obtain ⟨_, d₁, expected, afterExpect⟩ := gives_bind.1 given
  obtain ⟨-, rfl⟩ := expect_gives expected
  obtain ⟨_, d₂, checked, afterCheck⟩ := gives_bind.1 afterExpect
  obtain rfl := checkPermission_gives checked
  obtain ⟨_, d₃, listed, afterList⟩ := gives_bind.1 afterCheck
  have list : Gives (writePendingList e) d₂ ()
      { d₂ with
        cache := d₂.options.listsAfter d₂.cache e
        sql := d₂.sql ++ ofString (d₂.options.listOf d₂.cache e)
        listPending := false } := by
    rw [writePendingList, gives_get_bind, if_pos pending]
    exact gives_bind.2 ⟨_, _, defaultList_run e d₂, rfl⟩
  cases listed.symm.trans list
  exact congrArg (·.2.sql) afterList.symm

end Build

end Calls

/-- Pages that are set leave nothing but the last one of them. -/
theorem Draft.run_pages {d : Draft} (healthy : d.failure = none) (pages : List Page) :
    d.run (pages.map .paginate) = (.ok (), d.withPage (pages.getLast?.or d.page)) := by
  induction pages generalizing d with
  | nil => rfl
  | cons page pages ih =>
    have set : d.call (.paginate page) = (.ok (), d.withPage (some page)) := by
      rw [call, run_guarded healthy]
      rfl
    have later : (d.withPage (some page)).run (pages.map .paginate) = _ := ih healthy
    rw [List.map_cons, run_cons, set]
    dsimp only
    rw [later]
    cases pages with
    | nil => rfl
    | cons page' pages => simp [withPage, List.getLast?_cons]

/-- Behind a selection there are pages until the entity that it is from. -/
theorem Draft.exists_from {d d' : Draft} (selecting : d.clause = .select) {calls : List Call}
    (ran : d.run calls = (.ok (), d')) (complete : d'.clause.isComplete) :
    ∃ (pages : List Page) (e : Entity) (after : List Call),
      calls = pages.map .paginate ++ .from e :: after := by
  induction calls generalizing d with
  | nil =>
    cases ran
    rw [selecting] at complete
    cases complete
  | cons c calls ih =>
    obtain ⟨d₁, called, later⟩ := run_cons_gives.1 ran
    obtain ⟨_, made⟩ := call_gives.1 called
    cases wrote : c.clause? with
    | none =>
      obtain ⟨page, rfl⟩ := c.eq_paginate wrote
      obtain rfl := gives_modify.1 made
      obtain ⟨pages, e, after, rfl⟩ := ih (d := d.withPage (some page)) selecting later
      exact ⟨page :: pages, e, after, rfl⟩
    | some clause =>
      have follows := c.make_follows wrote made
      rw [selecting] at follows
      obtain ⟨e, rfl⟩ : ∃ e, c = .from e := by
        cases c <;> cases wrote <;> first | exact ⟨_, rfl⟩ | cases follows
      exact ⟨[], e, calls, rfl⟩

/-- A selection that leaves its list to the entity, which may be selected from, is written with the
list that is kept for it, or else with its own. -/
theorem Draft.run_unnamed {d d' : Draft} {c : Call} {s : Selection} {pages : List Page}
    {e : Entity} (selects : c.selection? = some s) (unnamed : s.shown = [])
    (ran : d.run (c :: pages.map .paginate ++ [.from e]) = (.ok (), d')) :
    e.permissions.allows .select ∧
    d'.sql = d.sql ++ ofString s.opening ++ ofString (d.options.listOf d.cache e) ++
      ofString s!" FROM {e.table}" := by
  obtain ⟨d₂, earlier, last⟩ := run_append_gives ran
  obtain ⟨d₁, first, paged⟩ := run_cons_gives.1 earlier
  obtain ⟨healthy, made⟩ := call_gives.1 first
  have ground : d.SameGround d₁ := c.make_ground made
  rw [Call.make_of_selection? selects] at made
  obtain ⟨sql, pending, cache⟩ := selectBlock_leaves unnamed made
  cases (run_pages (ground.failure.trans healthy) pages).symm.trans paged
  have made : Gives (fromEntity e) (d₁.withPage (pages.getLast?.or d₁.page)) () d' :=
    (call_gives.1 (run_one.1 last)).2
  refine ⟨fromEntity_requires e made, (fromEntity_lists made pending).trans ?_⟩
  show d₁.sql ++ ofString (d₁.options.listOf d₁.cache e) ++ _ = _
  rw [sql, cache, ground.options]

/-- Every selection that names no columns, wherever it stands and also if it is recorded, has the
list that was kept for its entity or else that of the entity. Where the kept lists are faithful this
is the list of the columns of a table that may be selected, unless there are none: then it is an
asterisk. -/
theorem unnamed_columns_are_permitted {c : Compilation} {cache : SelectCache}
    {before rest : List Call} {selection : Call} {s : Selection}
    (read : c.calls? = .ok (before ++ selection :: rest)) (selects : selection.selection? = some s)
    (unnamed : s.shown = []) {command : Command} (built : c.result cache = .ok command) :
    ∃ (pages : List Page) (e : Entity) (after : List Call) (d : Draft) (list : String) (back : Sql),
      rest = pages.map .paginate ++ .from e :: after ∧
      (c.draft cache).run before = (.ok (), d) ∧
      command.sql = (d.sql ++ ofString s.opening ++ ofString list ++ ofString s!" FROM {e.table}" ++
        back).text c.dialect ∧
      list = c.options.listOf d.cache e ∧
      ∀ known : Entity → Prop, ListedByKey known → c.Concerns known → cache.Faithful known →
        e.kind = .table →
        (list = ", ".intercalate e.permittedColumns ↔
          ∃ column ∈ e.columns, column.permissions.select) ∧
        (list = "*" ↔ ∀ column ∈ e.columns, column.permissions.select = false) := by
  obtain ⟨calls, read', built⟩ := Compilation.result_eq_ok.1 built
  cases read.symm.trans read'
  obtain ⟨pages, e, after, rfl⟩ : ∃ (pages : List Page) (e : Entity) (after : List Call),
      rest = pages.map .paginate ++ .from e :: after := by
    obtain ⟨d', made, finished⟩ := Draft.build_gives built
    obtain ⟨d₁, _, made⟩ := Draft.run_append_gives made
    obtain ⟨d₂, selected, later⟩ := Draft.run_cons_gives.1 made
    have reached : d₂.clause = .select := by
      refine Call.make_leadsTo ?_ (Draft.call_gives.1 selected).2
      cases selection <;> first | rfl | cases selects
    exact Draft.exists_from reached later (Draft.finished_eq finished).1
  have split : before ++ selection :: (pages.map .paginate ++ .from e :: after) =
      before ++ (selection :: pages.map .paginate ++ [.from e]) ++ after := by simp
  rw [split] at built read
  obtain ⟨d', ran, back, text⟩ := Draft.build_append built
  obtain ⟨d, ranBefore, ranBlock⟩ := Draft.run_append_gives ran
  obtain ⟨selectable, written⟩ := Draft.run_unnamed selects unnamed ranBlock
  have ground : (c.draft cache).SameGround d :=
    Draft.sameGround_holdsOverSteps.makeAll before ranBefore
  have groundLater : d.SameGround d' := Draft.sameGround_holdsOverSteps.makeAll _ ranBlock
  refine ⟨pages, e, after, d, c.options.listOf d.cache e, back, rfl, ranBefore, ?_, rfl, ?_⟩
  · rw [text, written, groundLater.dialect, ground.dialect, ground.options]
    rfl
  · intro known listed concerns faithful table
    have concern := Compilation.concerns_of_calls? concerns read
    have isKnown : known e := (concern (.from e) (by simp)).entity e rfl
    have about : ∀ call ∈ before, call.Concerns known (c.draft cache).registry :=
      fun call mem => concern call (by simp [mem])
    have faithful := makeAll_holds (fun asked h => h.fetch listed asked) about faithful
    rw [show (makeAll before).run (c.draft cache) = (.ok (), d) from ranBefore] at faithful
    have own : c.options.listOf d.cache e = e.selectList := by
      unfold Options.listOf
      split
      · exact faithful.fetch_fst ⟨isKnown, selectable⟩
      · rfl
    obtain ⟨permitted, star⟩ := e.selectList_cases table
    rw [own, permitted, star, ne_eq, e.permittedColumns_eq_nil]
    simp

def allOrders : List Call := [.select [], .from ordersWithoutAmounts, .unionAll]

def firstOrders : List Call := [.paginate ⟨some 5, none⟩, .from ordersWithoutAmounts]

def unionOfOrders : List Call := allOrders ++ .selectDistinct [.group] :: firstOrders

theorem unnamed_columns_are_permitted_union :
    let c : Compilation := ⟨.postgres, .new true, {}, .build unionOfOrders⟩
    let cache := keptAfter [selectionOf {} ordersWithoutAmounts]
    c.Concerns (· = ordersWithoutAmounts) ∧ cache.Faithful (· = ordersWithoutAmounts) ∧
    (c.result cache).map (·.sql) = .ok ("SELECT Orders.OrderID FROM Orders UNION ALL " ++
      "SELECT DISTINCT Orders.OrderID FROM Orders LIMIT 5") ∧
    ∃ d list back,
      (c.draft cache).run allOrders = (.ok (), d) ∧
      (c.result cache).map (·.sql) = .ok ((d.sql ++ ofString "SELECT DISTINCT " ++ ofString list ++
        ofString " FROM Orders" ++ back).text .postgres) ∧
      list = "Orders.OrderID" := by
  intro c cache
  have listed : ListedByKey (· = ordersWithoutAmounts) := by
    rintro _ _ rfl rfl _ _ _ _
    rfl
  have about : ∀ call ∈ unionOfOrders, ∀ e ∈ call.entity?, e = ordersWithoutAmounts := by
    decide +kernel
  have bare : ∀ call ∈ unionOfOrders, ∀ x ∈ call.expressions, x.parts = [] := by
    decide +kernel
  have concerns : c.Concerns (· = ordersWithoutAmounts) := fun call mem =>
    ⟨about call mem, fun x hx p hp => by rw [bare call mem x hx] at hp; cases hp⟩
  have faithful : cache.Faithful (· = ordersWithoutAmounts) :=
    keptAfter_faithful listed (List.forall_mem_singleton.2 (selectionOf_concerns rfl))
  have text : (c.result cache).map (·.sql) = .ok ("SELECT Orders.OrderID FROM Orders UNION ALL " ++
      "SELECT DISTINCT Orders.OrderID FROM Orders LIMIT 5") := by
    decide +kernel
  refine ⟨concerns, faithful, text, ?_⟩
  rcases built : c.result cache with e | command
  · rw [built] at text
    cases text
  · have read : c.calls? = .ok (allOrders ++ .selectDistinct [.group] :: firstOrders) := rfl
    have selects : (Call.selectDistinct [.group]).selection? = some ⟨[.group], true⟩ := rfl
    obtain ⟨pages, e, after, d, list, back, shape, ran, written, -, exactly⟩ :=
      unnamed_columns_are_permitted read selects (by decide) built
    obtain ⟨_, rfl, rfl⟩ : ∃ page, pages = [page] ∧ e = ordersWithoutAmounts := by
      rcases pages with _ | ⟨page, _ | ⟨page', pages⟩⟩ <;> cases shape
      exact ⟨_, rfl, rfl⟩
    have permitted := (exactly _ listed concerns faithful rfl).1
    exact ⟨d, list, back, ran, congrArg Except.ok written, permitted.2 (by decide +kernel)⟩

def hiddenOrders : Entity :=
  { orders with columns := orders.columns.map fun c => { c with permissions := { select := false } } }

/-- A selection that names no columns shows all of them where none may be selected, though naming any
of these fails. -/
theorem hidden_columns_shown :
    hiddenOrders.kind = .table ∧ hiddenOrders.columns ≠ [] ∧
    (∀ column ∈ hiddenOrders.columns, column.permissions.select = false) ∧
    ((selectionOf {} hiddenOrders).result []).map (·.sql) = .ok "SELECT * FROM Orders" ∧
    ∀ column ∈ hiddenOrders.columns,
      ((Draft.new .standard (.new true) {} []).call (.select [.ofColumn hiddenOrders column])).1 =
        .error (.permissionDenied s!"Order.{column.property}" .select) := by
  refine ⟨rfl, by decide, by decide, by decide +kernel, ?_⟩
  exact List.forall_mem_cons.2 ⟨rfl, List.forall_mem_singleton.2 rfl⟩

end DmlCompiler
