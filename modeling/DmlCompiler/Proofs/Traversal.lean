import DmlCompiler.Proofs.Bindings
import DmlCompiler.Proofs.Coupling.Kept
import DmlCompiler.Proofs.Histories
import DmlCompiler.Proofs.Placeholders

/-! # Parameters in the order of the tree

A condition binds what is found in its tree, read from the front: for each node the arguments of its
functions, then what it is compared with, then what its children bind. Values have the type of the
column unless functions are applied to it; a sub-query brings its own parameters. -/
namespace DmlCompiler

open Build Sql

section Specification

variable (inner : SubQuery → List Binding)

def Operand.bindings (column : Option ColumnRef) : Operand → List Binding
  | .value v => [.ofColumn column v]
  | .subQuery q => inner q

def Argument.bindings (column : Option ColumnRef) : Argument → List Binding
  | .value v => [.ofColumn column v]
  | .range low high => [.ofColumn column low, .ofColumn column high]
  | .list operands => operands.flatMap (·.bindings inner column)
  | .property other => other.functionBindings

namespace Expression

def argumentBindings (x : Expression) : List Binding :=
  x.argument.elim [] (·.bindings inner x.typed)

def usesArgument (x : Expression) : Bool := x.operator.any fun operator => !operator.isNullCheck

def ownBindings (x : Expression) : List Binding :=
  if x.isEmpty then []
  else x.functionBindings ++ if x.usesArgument then x.argumentBindings inner else []

mutual

def bindings : Expression → List Binding
  | x@⟨_, _, _, _, _, _, _, _, _, _, children⟩ => x.ownBindings inner ++ childBindings children

def childBindings : List Expression → List Binding
  | [] => []
  | child :: rest => child.bindings ++ childBindings rest

end

end Expression
end Specification

/-- What the statement of the sub-query binds where it is finished on the draft. -/
def Draft.bindingsOf (d : Draft) (q : SubQuery) : List Binding :=
  match (q.finish Query.compile).run d with
  | (.ok c, _) => c.parameters.map Parameter.binding
  | (.error _, _) => []

structure Draft.Leads (ground d : Draft) : Prop where
  dialect : d.dialect = ground.dialect
  registry : d.registry = ground.registry
  options : d.options = ground.options
  lists : ground.cache.EmptyAlike d.cache

theorem Draft.leads_lasting (ground : Draft) : Lasting ground.registry ground.Leads where
  registry h := h.registry
  congr h same := ⟨same.dialect.trans h.dialect, same.registry.trans h.registry,
    same.options.trans h.options, same.cache ▸ h.lists⟩
  addParameter value type size d h := by
    rcases addParameter_run d value type size with ⟨_, limit, failed⟩ | given
    · rw [failed]
      exact h
    · rw [given]
      exact ⟨h.dialect, h.registry, h.options, h.lists⟩
  fetched e h := ⟨h.dialect, h.registry, h.options, h.lists.trans (SelectCache.emptyAlike_after e)⟩
  child h := ⟨h.dialect, h.registry, h.options, h.lists⟩
  returned h h' := ⟨h.dialect, h.registry, h.options, h'.lists⟩

variable {α β ι : Type} {ground d d' : Draft}

/-- A sub-query that is finished later on binds what it would have bound at first. -/
theorem SubQuery.finish_bindings {q : SubQuery} {c : Command} (leads : ground.Leads d)
    (given : Gives (q.finish Query.compile) d c d') :
    ground.bindingsOf q = c.parameters.map Parameter.binding := by
  unfold Draft.bindingsOf
  cases q with
  | command finished =>
    obtain ⟨rfl, rfl⟩ := gives_pure.1 given
    rfl
  | deferred p =>
    have fresh : Coupling.kept.Beside d.child ground.child := by
      refine ⟨⟨ground.dialect, ground.options, ground.cache, [], [], ?_⟩, ?_, Iff.rfl⟩
      · simp [Draft.child, Draft.new, Draft.over, leads.registry]
      · exact ⟨leads.dialect.symm, leads.registry.symm, leads.options.symm, rfl, leads.lists.symm⟩
    have inside : Gives (inChild p.compile) d c d' := given
    obtain ⟨child, compiled, rfl⟩ := gives_inChild.1 inside
    rcases Coupling.kept_compile p fresh with
      ⟨c₁, d₁, c₂, e₁, first, second, alike, _⟩ | ⟨u, d₁, failed, _⟩
    · cases compiled.symm.trans first
      have finished : Gives (inChild p.compile) ground c₂ { ground with cache := e₁.cache } :=
        gives_inChild.2 ⟨_, second, rfl⟩
      have ran : ((SubQuery.deferred p).finish Query.compile).run ground = _ := finished
      rw [ran, ← alike.parameters]
    · rw [Gives, failed] at compiled
      cases compiled

/-- Wherever it is made, the operation binds these values and nothing else. -/
def Build.Binds (ground : Draft) (bs : List Binding) (x : Build α) : Prop :=
  ∀ ⦃d a d'⦄, ground.Leads d → Gives x d a d' → d.Gains bs d' ∧ ground.Leads d'

namespace Build

variable {bs cs : List Binding}

theorem binds_pure (a : α) : Binds ground [] (pure a) := by
  intro d b d' leads given
  obtain ⟨rfl, rfl⟩ := gives_pure.1 given
  exact ⟨Draft.gains_nil _, leads⟩

theorem binds_throw (e : QueryError) : Binds ground bs (throw e : Build α) :=
  fun _ _ _ _ given => (gives_throw.1 given).elim

theorem Binds.bind {x : Build α} {f : α → Build β} (hx : Binds ground bs x)
    (hf : ∀ a, Binds ground cs (f a)) : Binds ground (bs ++ cs) (x >>= f) := by
  intro d b d' leads given
  obtain ⟨a, d₁, first, second⟩ := gives_bind.1 given
  obtain ⟨gained, leads₁⟩ := hx leads first
  obtain ⟨gained', leads'⟩ := hf a leads₁ second
  exact ⟨gained.trans gained', leads'⟩

/-- What is done with the result binds nothing. -/
theorem Binds.map {x : Build α} (hx : Binds ground bs x) (f : α → β) :
    Binds ground bs (x >>= fun a => pure (f a)) := by
  have both := hx.bind fun a => binds_pure (f a)
  rwa [List.append_nil] at both

theorem Binds.ite {c : Prop} [Decidable c] {x y : Build α} (hx : c → Binds ground bs x)
    (hy : ¬ c → Binds ground bs y) : Binds ground bs (if c then x else y) := by
  split
  · next h => exact hx h
  · next h => exact hy h

theorem binds_mapM {f : ι → Build α} {each : ι → List Binding}
    (hf : ∀ i, Binds ground (each i) (f i)) :
    ∀ is : List ι, Binds ground (is.flatMap each) (is.mapM f)
  | [] => binds_pure []
  | i :: is => by
    rw [List.mapM_cons, List.flatMap_cons]
    exact (hf i).bind fun a => (binds_mapM hf is).map (a :: ·)

/-- A program without sub-queries that is known to bind these values. -/
theorem binds_of_program {x : Build α}
    (program : Program ground.registry Query.compile (fun _ => True) (fun _ => True) x)
    (gains : ∀ {d a d'}, Gives x d a d' → d.Gains bs d') : Binds ground bs x := by
  intro d a d' leads given
  have leads' := program.compiled_stays ground.leads_lasting leads
  rw [given] at leads'
  exact ⟨gains given, leads'⟩

theorem bindValue_binds_own (column : Option ColumnRef) (value : SqlValue) :
    Binds ground [.ofColumn column value] (bindValue column value) := by
  refine binds_of_program (.bindValue column value) fun {d a d'} given => ?_
  rw [(bindValue_binds given).2]
  exact d.gains_bound _

end Build

theorem SubQuery.inline_binds_own (q : SubQuery) :
    Binds ground (ground.bindingsOf q) (q.inline Query.compile) := by
  intro d sql d' leads given
  have stays : Stays ground.Leads (q.inline Query.compile) :=
    q.inline_stays ground.leads_lasting fun p _ => p.compile_stays ground.leads_lasting
  have leads' := stays leads
  rw [given] at leads'
  obtain ⟨c, d₁, finished, inlined⟩ := gives_bind.1 given
  rw [q.finish_bindings leads finished]
  exact ⟨(SubQuery.finish_binds finished).trans (Command.inline_binds inlined).2.2, leads'⟩

namespace Expression

theorem reference_binds_own (x : Expression) : Binds ground x.functionBindings x.reference :=
  binds_of_program x.reference_program fun given => (reference_binds given).2.2

theorem operand_binds_own (x : Expression) (alone : Bool) (o : Operand) :
    Binds ground (o.bindings ground.bindingsOf x.typed) (x.operand Query.compile alone o) := by
  cases o with
  | value v => exact bindValue_binds_own x.typed v
  | subQuery q => exact q.inline_binds_own.map _

theorem rightSide_binds_own (x : Expression) (operator : Operator) :
    Binds ground (x.argumentBindings ground.bindingsOf) (x.rightSide Query.compile operator) := by
  unfold rightSide argumentBindings
  cases x.argument with
  | none => exact binds_throw _
  | some argument =>
    cases argument with
    | property other => exact other.reference_binds_own
    | range low high =>
      refine .ite (fun _ => ?_) fun _ => binds_throw _
      exact (bindValue_binds_own x.typed low).bind fun a =>
        (bindValue_binds_own x.typed high).map _
    | list operands =>
      refine .ite (fun _ => ?_) fun _ => binds_throw _
      exact (binds_mapM (fun o => x.operand_binds_own _ o) operands).map _
    | value v => exact .ite (fun _ => binds_throw _) fun _ => bindValue_binds_own x.typed v

theorem condition_binds_own (x : Expression) :
    Binds ground (x.ownBindings ground.bindingsOf) (x.condition Query.compile) := by
  unfold condition ownBindings
  split
  · exact binds_pure []
  · refine x.reference_binds_own.bind fun left => ?_
    unfold usesArgument
    cases x.operator with
    | none => exact binds_pure left
    | some operator =>
      dsimp only [Option.any_some]
      by_cases check : operator.isNullCheck = true
      · rw [if_pos check, if_neg (by simp [check])]
        exact binds_pure _
      · rw [if_neg check, if_pos (by simp [check])]
        exact (x.rightSide_binds_own operator).map _

mutual

theorem predicate_binds_own : ∀ x : Expression,
    Binds ground (x.bindings ground.bindingsOf) (x.predicate Query.compile)
  | ⟨_, _, _, _, _, _, _, _, _, _, children⟩ => by
    rw [predicate_eq, bindings]
    refine (condition_binds_own _).bind fun sql => ?_
    exact (appendChildren_binds_own children sql).map _

theorem appendChildren_binds_own : ∀ (children : List Expression) (before : Sql),
    Binds ground (childBindings ground.bindingsOf children)
      (appendChildren Query.compile before children)
  | [], before => by
    rw [appendChildren, childBindings]
    exact binds_pure before
  | child :: rest, before => by
    rw [appendChildren, childBindings]
    exact (predicate_binds_own child).bind fun sql => appendChildren_binds_own rest _

end

end Expression

/-- A condition that is written leaves the draft as it was but for its parameters, to which those
of the tree are added from the front to the back, and for the kept select lists. -/
theorem condition_binds_in_order (x : Expression) (d d' : Draft) (sql : Sql)
    (written : (x.predicate Query.compile).run d = (.ok sql, d')) :
    d.Gains (x.bindings d.bindingsOf) d' :=
  (x.predicate_binds_own ⟨rfl, rfl, rfl, fun _ => Iff.rfl⟩ written).1

/-- The orders of one amount or with the large ones, which a finished command and a recorded query
ask for, whose number begins with two letters and is not beyond another one. -/
def layeredOrders : Expression :=
  let amount : ColumnRef := ⟨"Orders", "Amount", .decimal, none, .all⟩
  let number : ColumnRef := ⟨"Orders", "Number", .varChar, some 8, .all⟩
  let large : Query := .ofCalls (ordersWhere .greaterThan (.value (.integer 9)))
  let amounts : List Operand :=
    [.value (.integer 5), .subQuery (.command largeOrders), .subQuery (.deferred large)]
  let initials := (Expression.bare "Order" "Number" (some number)).substring 1 (some 2)
  let limit := (Expression.bare "Order" "Number" (some number)).between (.text "A") (.text "F")
  let some := (Expression.bare "Order" "Amount" (some amount)).compare .isIn (.list amounts)
  (some.and (initials.equal (.text "DE"))).and limit

theorem condition_binds_in_order_layered :
    let d := Draft.new .postgres (.new true) {} []
    ∃ sql d', (layeredOrders.predicate Query.compile).run d = (.ok sql, d') ∧
      d'.parameters = [⟨"$1", .integer 5, some .decimal, none⟩,
        ⟨"$2", .integer 7, some .decimal, none⟩, ⟨"$3", .integer 9, some .decimal, none⟩,
        ⟨"$4", .bigInt 1, none, none⟩, ⟨"$5", .bigInt 2, none, none⟩,
        ⟨"$6", .text "DE", none, none⟩, ⟨"$7", .text "A", some .varChar, some 8⟩,
        ⟨"$8", .text "F", some .varChar, some 8⟩] := by
  intro d
  have succeeds : ((layeredOrders.predicate Query.compile).run d).1.isOk = true := by
    decide +kernel
  rcases ran : (layeredOrders.predicate Query.compile).run d with ⟨e | sql, d'⟩
  · rw [ran] at succeeds
    cases succeeds
  · refine ⟨sql, d', rfl, ?_⟩
    rw [(condition_binds_in_order layeredOrders d d' sql ran).parameters]
    decide +kernel

/-- An argument for which there is no operator is not bound, although the node is not empty and
tests for no null. -/
theorem argument_without_operator_unbound :
    let product : ColumnRef := ⟨"Product", "ProductID", .integer, none, .all⟩
    let x : Expression :=
      { Expression.bare "Product" "ID" (some product) with argument := some (.value (.integer 1)) }
    let d := Draft.new .standard (.new true) {} []
    x.isEmpty = false ∧ (∀ operator ∈ x.operator, operator.isNullCheck = false) ∧
      ∃ sql d', (x.predicate Query.compile).run d = (.ok sql, d') ∧
        x.argumentBindings d.bindingsOf = [⟨.integer 1, some .integer, none⟩] ∧
        d'.parameters = [] := by
  intro product x d
  exact ⟨rfl, nofun, ofString "Product.ProductID", d, rfl, rfl, rfl⟩

end DmlCompiler
