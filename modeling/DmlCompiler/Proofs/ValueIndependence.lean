import DmlCompiler.Proofs.Values.Queries

/-! # Commands do not depend on values

Two runs of calls that differ in values alone fail at the same call with the same error, or give
commands that differ in the values of their parameters alone. Both are the run with every value
erased. -/
namespace DmlCompiler

def erased : SqlValue → SqlValue := fun _ => .null

/-- The same calls in the same order, whatever values they carry. -/
def SameUpToValues (calls calls' : List Call) : Prop :=
  calls.map (·.mapValues erased) = calls'.map (·.mapValues erased)

def Command.withoutValues (c : Command) : Command := c.mapValues erased

theorem SameUpToValues.take {calls calls' : List Call} (h : SameUpToValues calls calls') (n : Nat) :
    SameUpToValues (calls.take n) (calls'.take n) := by
  unfold SameUpToValues at *
  rw [List.map_take, List.map_take, h]

namespace Build

variable {f : SqlValue → SqlValue}

theorem makeAll_mirrors (calls : List Call) :
    Mirrors (Draft.alter f id id) id (makeAll calls) (makeAll (calls.map (·.mapValues f))) :=
  mirrors_forM fun c _ =>
    (c.make_mirrors Query.compilesAlike c.ends_id).guarded (fun _ => rfl) fun _ _ => rfl

end Build

namespace Draft

variable {d : Draft} {f : SqlValue → SqlValue}

theorem run_mapValues (fresh : d.alter f id id = d) (calls : List Call) :
    (d.run (calls.map (·.mapValues f))).1 = (d.run calls).1 := by
  have mirrored := Build.makeAll_mirrors (f := f) calls d
  rw [fresh] at mirrored
  unfold run
  rw [mirrored]
  cases ((Build.makeAll calls).run d).1 <;> rfl

theorem build_mapValues (fresh : d.alter f id id = d) (calls : List Call) :
    (d.build (calls.map (·.mapValues f))).1 = (d.build calls).1.map (·.mapValues f) := by
  have mirrored : Build.Mirrors (Draft.alter f id id) (·.mapValues f)
      (do Build.makeAll calls; Build.finish)
      (do Build.makeAll (calls.map (·.mapValues f)); Build.finish) :=
    (Build.makeAll_mirrors calls).bind fun _ => Build.finish_mirrors
  have run := mirrored d
  rw [fresh] at run
  exact congrArg Prod.fst run

end Draft

theorem values_never_influence_sql (dialect : Dialect) (registry : Registry) (options : Options)
    (cache : SelectCache) {calls calls' : List Call} (same : SameUpToValues calls calls') :
    (∀ n, ((Draft.new dialect registry options cache).run (calls.take n)).1 =
      ((Draft.new dialect registry options cache).run (calls'.take n)).1) ∧
    ((Draft.new dialect registry options cache).build calls).1.map Command.withoutValues =
      ((Draft.new dialect registry options cache).build calls').1.map Command.withoutValues := by
  have fresh : (Draft.new dialect registry options cache).alter erased id id =
      Draft.new dialect registry options cache := rfl
  constructor
  · intro n
    rw [← Draft.run_mapValues fresh (calls.take n), same.take n, Draft.run_mapValues fresh]
  · calc ((Draft.new dialect registry options cache).build calls).1.map Command.withoutValues
        = ((Draft.new dialect registry options cache).build
            (calls.map (·.mapValues erased))).1 := (Draft.build_mapValues fresh calls).symm
      _ = ((Draft.new dialect registry options cache).build
            (calls'.map (·.mapValues erased))).1 := by rw [same]
      _ = ((Draft.new dialect registry options cache).build calls').1.map
            Command.withoutValues := Draft.build_mapValues fresh calls'

def amountsIn (v : SqlValue) : List Call :=
  let amount : ColumnRef := ⟨"Orders", "Amount", .decimal, none, .all⟩
  let amounts : Expression :=
    { Expression.bare "Order" "Amount" (some amount) with operator := some .isIn }
  let inner : Expression := { amounts with argument := some (.list [.value v]) }
  let orders : Query := .ofCalls [.select [], .from .queryResult, .filter inner]
  let outer : Expression :=
    { amounts with argument := some (.list [.value v, .subQuery (.deferred orders)]) }
  [.select [], .from .queryResult, .filter outer]

/-- A null is no exception, and the selection compiles. -/
theorem values_never_influence_sql_null :
    SameUpToValues (amountsIn (.integer 5)) (amountsIn .null) ∧
    ((Draft.new .standard (.new true) {} []).build (amountsIn .null)).1.toOption.isSome ∧
    ((Draft.new .standard (.new true) {} []).build
        (amountsIn (.integer 5))).1.map Command.withoutValues =
      ((Draft.new .standard (.new true) {} []).build
        (amountsIn .null)).1.map Command.withoutValues := by
  have same : SameUpToValues (amountsIn (.integer 5)) (amountsIn .null) := rfl
  refine ⟨same, ?_, (values_never_influence_sql .standard (.new true) {} [] same).2⟩
  decide +kernel

end DmlCompiler
