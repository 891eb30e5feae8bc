import DmlCompiler.Proofs.Composition
import DmlCompiler.Proofs.Grammar
import DmlCompiler.Proofs.Nesting
import DmlCompiler.Proofs.Permissions
import DmlCompiler.Proofs.Rendering.Queries
import DmlCompiler.Proofs.Replay
import DmlCompiler.Proofs.SelectLists.Calls

/-! # Permissions of whole commands

A run of calls ends with a command only if every call has the permissions that it needs: those of
the entities that are read or changed, and of the columns that are written. The same holds of the
queries that are nested in the calls, down to the innermost. -/
namespace DmlCompiler

open Build

def ColumnRef.BelongsTo (c : ColumnRef) (e : Entity) : Prop :=
  ∃ column ∈ e.columns, c = e.ref column

def Call.updated? : Call → Option Entity
  | .update e => some e
  | _ => none

def updated (calls : List Call) : List Entity := calls.filterMap Call.updated?

/-- The call has the permissions that it needs behind the calls before it. -/
def Call.Authorized (before : List Call) : Call → Prop
  | .from e | .join _ e _ => e.permissions.allows .select = true
  | .insert e xs => e.Takes .insert ∧ ∀ x ∈ insertList e xs, ∀ c ∈ x.column,
      c.BelongsTo e ∧ c.permissions.allows .insert = true
  | .update e => e.Takes .update
  | .set x _ => ∃ e, updated before = [e] ∧ ∃ c ∈ x.column,
      c.BelongsTo e ∧ c.permissions.allows .update = true
  | .delete e => e.Takes .delete
  | .truncate e => e.Takes .truncate
  | _ => True

/-- Every one of the calls has the permissions that it needs, and so have all calls that are
recorded in nested queries. -/
inductive Authorized (dialect : Dialect) (registry : Registry) : List Call → Prop where
  | intro {calls : List Call}
    (own : ∀ before c after, calls = before ++ c :: after → c.Authorized before)
    (readable : ∀ c ∈ calls, ∀ q, c.Nests q → ∃ inner, q.calls? dialect registry = .ok inner)
    (nested : ∀ c ∈ calls, ∀ q, c.Nests q → ∀ inner, q.calls? dialect registry = .ok inner →
      Authorized dialect registry inner) : Authorized dialect registry calls

def Query.IsAuthorized (dialect : Dialect) (registry : Registry) (q : Query) : Prop :=
  ∃ calls, q.calls? dialect registry = .ok calls ∧ Authorized dialect registry calls

/-- The call is about entities that are known, and its nodes carry columns of these. -/
structure Call.Over (known : Entity → Prop) (registry : Registry) (c : Call) : Prop
    extends c.Concerns known registry where
  nodes : ∀ x ∈ c.expressions, ∀ z ∈ x.nodes, z.StandsFor known

structure Query.Over (known : Entity → Prop) (registry : Registry) (q : Query) : Prop where
  parts : ∀ p ∈ q.parts, p.Resolves known registry
  nodes : ∀ z ∈ q.nodes, z.StandsFor known

section Over

variable {known : Entity → Prop} {registry : Registry} {c : Call} {q : Query}

/-- A call is over known entities if its expressions are composed of these and of queries that are
over them. -/
theorem Call.Over.of_composed (entity : ∀ e ∈ c.entity?, known e)
    (composed : ∀ x ∈ c.expressions, x.Composed known fun s =>
      (∀ p ∈ s.parts, p.Resolves known registry) ∧ ∀ z ∈ s.nodes, z.StandsFor known) :
    c.Over known registry where
  entity := entity
  expressions := by
    intro x hx p hp
    rcases (composed x hx).parts p hp with ⟨_, _, _, _, rfl⟩ | ⟨s, nested, inside⟩
    · trivial
    · exact nested.1 p inside
  nodes := by
    intro x hx z hz
    rcases (composed x hx).nodes z hz with stands | ⟨s, nested, inside⟩
    · exact stands
    · exact nested.2 z inside

theorem Call.Over.nested (h : c.Over known registry) (nested : c.Nests q) :
    q.Over known registry := by
  obtain ⟨x, hx, inside⟩ := nested.expression
  constructor
  · exact fun p hp => h.expressions x hx p (inside.parts p hp)
  · exact fun z hz => h.nodes x hx z (inside.nodes z hz)

/-- The calls that a query over known entities stands for are over these. -/
theorem Query.Over.calls (h : q.Over known registry) {dialect : Dialect} {calls : List Call}
    (read : q.calls? dialect registry = .ok calls) : ∀ c ∈ calls, c.Over known registry := by
  intro c mem
  refine ⟨concerns_of_calls? h.parts read c mem, ?_⟩
  rcases mem_calls? read mem with ⟨page, rfl⟩ | ⟨record, there, read⟩
  · exact nofun
  · obtain ⟨expressions, _⟩ := RecordedCall.covers_of_call? read
    exact fun x hx z hz => h.nodes z (expression_nodes there (expressions x hx) hz)

theorem Call.recorded_eq {record : RecordedCall} (recorded : c.recorded? = some record) :
    record.expressions = c.expressions ∧
      record.typeArguments = (c.entity?.map (·.name)).toList := by
  cases c with
  | join kind e on =>
    cases recorded
    cases on <;> exact ⟨rfl, rfl⟩
  | _ =>
    cases recorded <;>
    simp [RecordedCall.expressions, CallArgument.expressions, expressions, entity?]

/-- A query that is recorded from calls over known entities is over these, if the registry has them
under their names. -/
theorem Query.Over.of_calls {calls : List Call}
    (resolved : ∀ e, known e → registry.entity? e.name = some e)
    (about : ∀ c ∈ calls, c.Over known registry) : (Query.ofCalls calls).Over known registry := by
  rw [Query.ofCalls_eq]
  constructor
  · rw [Query.parts, recordedParts_eq]
    intro p hp
    obtain ⟨record, mem, hp⟩ := List.mem_flatMap.1 hp
    obtain ⟨c, there, recorded⟩ := List.mem_filterMap.1 mem
    obtain ⟨expressions, entities⟩ := Call.recorded_eq recorded
    rw [RecordedCall.parts_eq, expressions, entities] at hp
    rcases List.mem_append.1 hp with hp | hp
    · obtain ⟨name, named, rfl⟩ := List.mem_map.1 hp
      obtain ⟨e, he, rfl⟩ := Option.map_eq_some_iff.1 (Option.mem_toList.1 named)
      have isKnown : known e := (about c there).entity e he
      intro e' found
      cases (resolved e isKnown).symm.trans found
      exact isKnown
    · obtain ⟨x, hx, hp⟩ := List.mem_flatMap.1 hp
      exact (about c there).expressions x hx p hp
  · rw [Query.nodes_eq]
    intro z hz
    obtain ⟨record, mem, hz⟩ := List.mem_flatMap.1 hz
    obtain ⟨c, there, recorded⟩ := List.mem_filterMap.1 mem
    rw [(Call.recorded_eq recorded).1] at hz
    obtain ⟨x, hx, hz⟩ := List.mem_flatMap.1 hz
    exact (about c there).nodes x hx z hz

end Over

namespace Expression.StandsFor

variable {known : Entity → Prop} {x : Expression} {e : Entity}

/-- Where names identify the entities, the column belongs to the one that the expression names. -/
theorem belongsTo (identified : ∀ a b, known a → known b → a.name = b.name → a = b)
    (h : x.StandsFor known) (isKnown : known e) (named : x.entity = e.name) :
    ∀ c ∈ x.column, c.BelongsTo e := by
  intro c carried
  obtain ⟨e', isKnown', named', column, mem, eq⟩ := h c carried
  obtain rfl : e' = e := identified e' e isKnown' isKnown (named'.symm.trans named)
  exact ⟨column, mem, eq⟩

theorem insertList (isKnown : known e) {xs : List Expression}
    (h : ∀ x ∈ xs, x.StandsFor known) : ∀ x ∈ Build.insertList e xs, x.StandsFor known := by
  intro x hx
  rw [Build.insertList] at hx
  split at hx
  · obtain ⟨column, insertable, rfl⟩ := List.mem_map.1 hx
    rintro _ ⟨⟩
    exact ⟨e, isKnown, rfl, column, (List.mem_filter.1 insertable).1, rfl⟩
  · exact h x hx

end Expression.StandsFor

section Calls

variable {compile : Query → Build Command} {before : List Call} {c : Call} {d d' : Draft} {u : Unit}

namespace Build

theorem beginWith_target (clause : Clause) (kind : StatementKind) (keyword : String) (e : Entity) :
    Keeps (fun _ d => d.target = some e) (beginWith clause kind keyword e) := by
  refine .after _ fun _ => .after _ fun _ => .after _ fun _ => ?_
  intro d u d' given
  obtain ⟨_, d₁, targeted, moved⟩ := gives_bind.1 given
  rw [gives_modify.1 moved, gives_modify.1 targeted]

theorem setColumn_checks {x : Expression} {operation : UpdateOperation} {e : Entity}
    (target : d.target = some e) (given : Gives (setColumn x operation) d u d') :
    x.entity = e.name ∧ x.Permits .update ∧ x.column.isSome ∧ d'.target = some e := by
  obtain ⟨_, d₁, expected, afterExpect⟩ := gives_bind.1 given
  obtain ⟨_, rfl⟩ := expect_gives expected
  obtain ⟨_, d₂, checked, afterCheck⟩ := gives_bind.1 afterExpect
  obtain ⟨targeted, named⟩ := checkColumn_yields e x target checked
  obtain ⟨_, d₃, permitted, afterPermission⟩ := gives_bind.1 afterCheck
  obtain rfl := Expression.checkPermission_gives permitted
  obtain ⟨column, d₄, found, afterColumn⟩ := gives_bind.1 afterPermission
  obtain ⟨carried, rfl⟩ := orFail_gives found
  obtain ⟨sql, d₅, bound, afterValue⟩ := gives_bind.1 afterColumn
  obtain ⟨_, _, rfl⟩ := bindValue_appends _ _ bound
  obtain ⟨_, d₆, written, moved⟩ := gives_bind.1 (gives_get_bind.1 afterValue)
  rw [gives_modify.1 moved, gives_modify.1 written]
  exact ⟨named, x.checkPermission_requires .update permitted, by simp [carried], targeted⟩

end Build

/-- Nothing is updated before the first clause, and where columns may be set there is one entity
that is updated and the target. -/
structure Draft.Updates (before : List Call) (d : Draft) : Prop where
  fresh : d.clause = .start → updated before = []
  target : d.clause ∈ Clause.set.predecessors → ∃ e, d.target = some e ∧ updated before = [e]

namespace Draft.Updates

theorem of_start (start : d.clause = .start) : d.Updates [] where
  fresh _ := rfl
  target settable := by
    rw [start] at settable
    exact absurd settable (by decide)

/-- Where neither an update begins nor columns may be set there is nothing to be known. -/
theorem elsewhere (started : d.clause ≠ .start) (other : d.clause ∉ Clause.set.predecessors) :
    d.Updates before :=
  ⟨fun fresh => (started fresh).elim, fun settable => (other settable).elim⟩

theorem call (hd : d.Updates before) (given : Gives (c.make compile) d u d') :
    d'.Updates (before ++ [c]) := by
  have split : updated (before ++ [c]) = updated before ++ updated [c] := List.filterMap_append
  cases wrote : c.clause? with
  | none =>
    obtain ⟨page, rfl⟩ := c.eq_paginate wrote
    obtain rfl := gives_modify.1 given
    have same : updated (before ++ [.paginate page]) = updated before := by
      rw [split]
      exact List.append_nil _
    exact ⟨fun start => same ▸ hd.fresh start, fun settable => same ▸ hd.target settable⟩
  | some next =>
    have reached : d'.clause = next := c.make_leadsTo wrote given
    have follows := Clause.mem_of_mayFollow (c.make_follows wrote given)
    cases c with
    | paginate page => cases wrote
    | update e =>
      cases wrote
      have start : d.clause = .start := List.mem_singleton.1 follows
      refine ⟨fun fresh => ?_, fun _ => ⟨e, beginWith_target _ _ _ e given, ?_⟩⟩
      · cases reached.symm.trans fresh
      · rw [split, hd.fresh start]
        rfl
    | set x operation =>
      cases wrote
      obtain ⟨e, target, once⟩ := hd.target follows
      refine ⟨fun fresh => ?_, fun _ => ⟨e, (setColumn_checks target given).2.2.2, ?_⟩⟩
      · cases reached.symm.trans fresh
      · rw [split, once]
        rfl
    | _ =>
      cases wrote
      exact elsewhere (by rw [reached]; decide) (by rw [reached]; decide)

theorem makeAll {calls : List Call} (hd : d.Updates before)
    (given : Gives (Build.makeAll calls) d u d') : d'.Updates (before ++ calls) := by
  induction calls generalizing before d with
  | nil =>
    obtain ⟨_, rfl⟩ := gives_pure.1 given
    rwa [List.append_nil]
  | cons c calls ih =>
    obtain ⟨_, d₁, first, rest⟩ := gives_bind.1 given
    rw [← List.singleton_append, ← List.append_assoc]
    exact ih (hd.call (gives_guarded.1 first).2) rest

end Draft.Updates

section Known

variable {known : Entity → Prop} {dialect : Dialect} {registry : Registry}
  (identified : ∀ a b, known a → known b → a.name = b.name → a = b)
include identified

theorem Call.make_authorized (about : c.Over known registry) (held : ∀ e ∈ updated before, known e)
    (hd : d.Updates before) (given : Gives (c.make compile) d u d') : c.Authorized before := by
  cases c with
  | «from» e => exact fromEntity_requires e given
  | join kind e on => exact joinEntity_requires kind e on given
  | update e | delete e | truncate e => exact beginWith_requires _ _ _ e given
  | insert e xs =>
    obtain ⟨takes, checked⟩ := insertInto_requires e xs given
    refine ⟨takes, fun x hx c carried => ?_⟩
    obtain ⟨named, permits⟩ := checked x hx
    have isKnown : known e := about.entity e rfl
    have stands : x.StandsFor known :=
      Expression.StandsFor.insertList isKnown (fun x hx => about.nodes x hx x x.self_mem_nodes) x hx
    exact ⟨stands.belongsTo identified isKnown named c carried, permits c carried⟩
  | set x operation =>
    have follows := Clause.mem_of_mayFollow (Call.make_follows rfl given)
    obtain ⟨e, target, once⟩ := hd.target follows
    obtain ⟨named, permits, some, _⟩ := setColumn_checks target given
    obtain ⟨column, carried⟩ := Option.isSome_iff_exists.1 some
    have isKnown : known e := held e (by rw [once]; exact List.mem_singleton_self e)
    have stands : x.StandsFor known := about.nodes x List.mem_cons_self x x.self_mem_nodes
    refine ⟨e, once, column, carried, ?_, permits column carried⟩
    exact stands.belongsTo identified isKnown named column carried
  | _ => trivial

/-- The calls of a run that succeeds have the permissions that they need if the nested queries that
are compiled in it have. -/
theorem Build.makeAll_authorized {calls : List Call} (here : d.IsFor dialect registry)
    (start : d.clause = .start) (about : ∀ c ∈ calls, c.Over known registry)
    (inner : ∀ c ∈ calls, ∀ q : Query, c.Nests q → ∀ d₁ command d₂, d₁.IsFor dialect registry →
      d₁.clause = .start → Gives q.compile d₁ command d₂ → q.IsAuthorized dialect registry)
    (given : Gives (makeAll calls) d u d') : Authorized dialect registry calls := by
  have compiled : ∀ c ∈ calls, ∀ q, c.Nests q → q.IsAuthorized dialect registry := by
    intro c mem q nests
    obtain ⟨before, after, rfl⟩ := List.append_of_mem mem
    obtain ⟨d₁, d₂, reached, made⟩ := makeAll_split given
    obtain ⟨d₃, command, d₄, same, compiled⟩ := Call.make_compiles nests made
    have ground : d.SameGround d₁ := keeps_forM (fun c => c.make_ground.guarded) before reached
    obtain ⟨isDialect, isRegistry⟩ := same.isFor (ground.isFor here)
    exact inner c mem q nests d₃.child command d₄ ⟨isDialect, isRegistry⟩ rfl compiled
  constructor
  · rintro before c after rfl
    obtain ⟨d₁, d₂, reached, made⟩ := makeAll_split given
    have held : ∀ e ∈ updated before, known e := by
      intro e mem
      obtain ⟨call, there, updates⟩ := List.mem_filterMap.1 mem
      refine (about call (List.mem_append_left _ there)).entity e ?_
      cases call <;> first | exact updates | cases updates
    have updates : d₁.Updates before := (Draft.Updates.of_start start).makeAll reached
    exact Call.make_authorized identified (about c (by simp)) held updates made
  · intro c mem q nests
    obtain ⟨calls, read, _⟩ := compiled c mem q nests
    exact ⟨calls, read⟩
  · intro c mem q nests calls read
    obtain ⟨calls', read', authorized⟩ := compiled c mem q nests
    rw [read] at read'
    cases read'
    exact authorized

theorem Query.compile_authorized (q : Query) : q.Over known registry →
    ∀ d command d', d.IsFor dialect registry → d.clause = .start → Gives q.compile d command d' →
      q.IsAuthorized dialect registry := by
  induction q using Query.induct with
  | step q ih =>
    intro about d command d' here start given
    rw [compile_eq] at given
    obtain ⟨_, d₁, replayed, _⟩ := gives_bind.1 given
    obtain ⟨calls, read, made⟩ := replay_gives here replayed
    refine ⟨calls, read, makeAll_authorized identified here start (about.calls read) ?_ made⟩
    intro c mem p nests
    have nested : .deferred p ∈ q.subQueries := by
      rcases mem_calls? read mem with ⟨page, rfl⟩ | ⟨record, there, read⟩
      · exact nests.elim
      · have inside := RecordedCall.call_subQueries read _ nests.mem_subQueries
        exact List.mem_flatMap.2 ⟨record, there, inside⟩
    exact ih p nested ((about.calls read c mem).nested nests)

/-- Every call of a run that ends with a command has the permissions that it needs, and so has every
call of the queries that are nested in it. -/
theorem permissions_hold {options : Options} {cache : SelectCache} {calls : List Call}
    {command : Command} (about : ∀ c ∈ calls, c.Over known registry)
    (built : ((Draft.new dialect registry options cache).build calls).1 = .ok command) :
    Authorized dialect registry calls := by
  obtain ⟨d, made, _⟩ := Draft.build_gives built
  refine makeAll_authorized identified ⟨rfl, rfl⟩ rfl about ?_ made
  intro c mem q nests
  exact q.compile_authorized identified ((about c mem).nested nests)

end Known
end Calls

def orderId : Expression :=
  .bare "Order" "OrderID" (some ⟨"Orders", "OrderID", .bigInt, none, .all⟩)

def largeOrderIds : List Call :=
  [.select [orderId], .from orders, .filter (amount.greaterThan (.integer 7))]

def raisedAmounts : List Call :=
  [.update orders, .set amount (.increment (.integer 1)),
    .filter (orderId.isInSubQuery (.deferred (.ofCalls largeOrderIds)))]

def raisedCommand : Command where
  name := Command.anonymous
  sql := "UPDATE Orders SET Amount = Amount + $1 WHERE (Orders.OrderID IN " ++
    "(SELECT Orders.OrderID FROM Orders WHERE (Orders.Amount > $2)))"
  parameters := [⟨"$1", .integer 1, some .decimal, none⟩, ⟨"$2", .integer 7, some .decimal, none⟩]
  kind := .update
  page := none

theorem permissions_hold_nested :
    let registry : Registry := ⟨true, [orders, .queryResult]⟩
    (∀ c ∈ raisedAmounts, c.Over (· = orders) registry) ∧
    ((Draft.new .postgres registry {} []).build raisedAmounts).1 = .ok raisedCommand ∧
    Authorized .postgres registry raisedAmounts := by
  intro registry
  have identified : ∀ a b : Entity, a = orders → b = orders → a.name = b.name → a = b := by
    rintro _ _ rfl rfl _
    rfl
  have amounts {nests : SubQuery → Prop} : amount.Composed (· = orders) nests :=
    .property rfl (show Expression.ofEntity orders "Amount" = .ok amount from rfl)
  have ids {nests : SubQuery → Prop} : orderId.Composed (· = orders) nests :=
    .property rfl (show Expression.ofEntity orders "OrderID" = .ok orderId from rfl)
  have inner : (Query.ofCalls largeOrderIds).Over (· = orders) registry := by
    refine .of_calls (by rintro _ rfl; rfl) ?_
    simp only [largeOrderIds, List.forall_mem_cons, List.not_mem_nil, IsEmpty.forall_iff,
      implies_true, and_true]
    refine ⟨.of_composed (by simp [Call.entity?]) ?_, .of_composed (by simp [Call.entity?]) ?_,
      .of_composed (by simp [Call.entity?]) ?_⟩
    · exact List.forall_mem_singleton.2 ids
    · exact List.forall_mem_nil _
    · exact List.forall_mem_singleton.2 (amounts.compareValue _ _)
  have about : ∀ c ∈ raisedAmounts, c.Over (· = orders) registry := by
    simp only [raisedAmounts, List.forall_mem_cons, List.not_mem_nil, IsEmpty.forall_iff,
      implies_true, and_true]
    refine ⟨.of_composed (by simp [Call.entity?]) ?_, .of_composed (by simp [Call.entity?]) ?_,
      .of_composed (by simp [Call.entity?]) ?_⟩
    · exact List.forall_mem_nil _
    · exact List.forall_mem_singleton.2 amounts
    · have made : orderId.membership .isIn [.subQuery (.deferred (.ofCalls largeOrderIds))] =
          .ok (orderId.isInSubQuery (.deferred (.ofCalls largeOrderIds))) := rfl
      refine List.forall_mem_singleton.2 (.membership ids ?_ made)
      rintro q mem
      cases List.mem_singleton.1 mem
      exact ⟨inner.parts, inner.nodes⟩
  have built : ((Draft.new .postgres registry {} []).build raisedAmounts).1 = .ok raisedCommand := by
    decide +kernel
  exact ⟨about, built, permissions_hold identified about built⟩

end DmlCompiler
