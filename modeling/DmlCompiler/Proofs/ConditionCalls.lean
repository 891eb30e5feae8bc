import DmlCompiler.Proofs.Build.Runs

/-! # Calls that add conditions

A filter and a condition on groups do the same to two clauses: a condition that is not empty goes
into parentheses, behind the keyword or, where the clause is open, behind a connective. -/
namespace DmlCompiler

open Build

inductive ConditionClause where
  | rows
  | groups

namespace ConditionClause

def keyword : ConditionClause → String
  | rows => " WHERE ("
  | groups => " HAVING ("

def clause : ConditionClause → Clause
  | rows => .where
  | groups => .having

def isOpen : ConditionClause → Draft → Bool
  | rows, d => d.whereOpen
  | groups, d => d.havingOpen

def call : ConditionClause → Expression → Call
  | rows, x => .filter x
  | groups, x => .having x

def add : ConditionClause → Expression → Sql → Build Unit
  | rows => addWhere
  | groups => addHaving

def opened : ConditionClause → Draft → Draft
  | rows, d => { d with whereOpen := true }
  | groups, d => { d with havingOpen := true }

def piece (k : ConditionClause) (d : Draft) (x : Expression) (sql : Sql) : Sql :=
  if sql = [] then []
  else Sql.ofString (opener k.keyword (!k.isOpen d) x) ++ sql ++ Sql.ofString ")"

def added (k : ConditionClause) (d : Draft) (x : Expression) (sql : Sql) : Draft :=
  { (if sql = [] then d else k.opened d) with
    sql := d.sql ++ k.piece d x sql
    clause := k.clause }

variable {k : ConditionClause} {d d' : Draft} {x : Expression} {sql : Sql}

theorem piece_nil : k.piece d x [] = [] := if_pos rfl

theorem piece_of_ne_nil (some : sql ≠ []) : k.piece d x sql =
    Sql.ofString (opener k.keyword (!k.isOpen d) x) ++ sql ++ Sql.ofString ")" := if_neg some

theorem added_sql : (k.added d x sql).sql = d.sql ++ k.piece d x sql := rfl

@[simp] theorem added_parameters : (k.added d x sql).parameters = d.parameters := by
  unfold added
  split
  · rfl
  · cases k <;> rfl

@[simp] theorem added_isOpen :
    k.isOpen (k.added d x sql) = (k.isOpen d || decide (sql ≠ [])) := by
  unfold added
  split
  · next empty => cases k <;> simp [isOpen, empty]
  · next some => cases k <;> simp [isOpen, opened, some]

theorem add_gives {u : Unit} (given : Gives (k.add x sql) d u d') :
    d' = { (if sql = [] then d else k.opened d) with sql := d.sql ++ k.piece d x sql } := by
  by_cases empty : sql = []
  · subst empty
    cases k <;> exact (gives_pure.1 given).2.trans (by simp [piece])
  · have some : (!sql.isEmpty) = true := by simpa using empty
    cases k <;>
    · simp only [add, addWhere, addHaving, some, if_true] at given
      rw [gives_get_bind] at given
      obtain ⟨_, d₁, marked, wrote⟩ := gives_bind.1 given
      obtain rfl := gives_modify.1 marked
      obtain rfl := gives_modify.1 wrote
      simp [piece, empty, opened, isOpen, keyword]

theorem call_gives {compile : Query → Build Command} {u : Unit}
    (given : Gives ((k.call x).make compile) d u d') :
    ∃ sql d₁, Gives (x.predicate compile) d sql d₁ ∧ d' = k.added d₁ x sql := by
  have make : (k.call x).make compile = (do
      expect k.clause
      k.add x (← x.predicate compile)
      moveTo k.clause) := by
    cases k <;> rfl
  rw [make] at given
  obtain ⟨_, d₁, expected, afterExpect⟩ := gives_bind.1 given
  obtain ⟨-, rfl⟩ := expect_gives expected
  obtain ⟨sql, d₂, rendered, afterPredicate⟩ := gives_bind.1 afterExpect
  obtain ⟨_, d₃, wrote, moved⟩ := gives_bind.1 afterPredicate
  obtain rfl := gives_modify.1 moved
  obtain rfl := add_gives wrote
  exact ⟨sql, d₂, rendered, rfl⟩

end ConditionClause
end DmlCompiler
