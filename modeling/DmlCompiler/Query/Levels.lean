import DmlCompiler.Query.Nesting

/-! # Levels of sub-queries

A call asks the compiler of sub-queries only about nested queries, and these are less deep. So the
levels that `Query.compile` allows are enough, and `Query.compile_eq` says what it does without
counting them.
-/
namespace DmlCompiler

def AgreeBelow (n : Nat) (f g : Query → Build Command) : Prop := ∀ q, q.depth < n → f q = g q

section Depth

theorem depth_le_of_mem_operands {o : Operand} :
    ∀ {os : List Operand}, o ∈ os → o.depth ≤ operandsDepth os
  | p :: os, h => by
    rcases List.mem_cons.1 h with rfl | h
    · exact Nat.le_max_left _ _
    · exact Nat.le_trans (depth_le_of_mem_operands h) (Nat.le_max_right _ _)

theorem depth_le_of_mem_expressions {x : Expression} :
    ∀ {xs : List Expression}, x ∈ xs → x.depth ≤ expressionsDepth xs
  | y :: xs, h => by
    rcases List.mem_cons.1 h with rfl | h
    · exact Nat.le_max_left _ _
    · exact Nat.le_trans (depth_le_of_mem_expressions h) (Nat.le_max_right _ _)

theorem depth_le_of_mem_arguments {a : CallArgument} :
    ∀ {as : List CallArgument}, a ∈ as → a.depth ≤ callArgumentsDepth as
  | b :: as, h => by
    rcases List.mem_cons.1 h with rfl | h
    · exact Nat.le_max_left _ _
    · exact Nat.le_trans (depth_le_of_mem_arguments h) (Nat.le_max_right _ _)

theorem depth_le_of_mem_calls {c : RecordedCall} :
    ∀ {cs : List RecordedCall}, c ∈ cs → callArgumentsDepth c.arguments ≤ callsDepth cs
  | ⟨_, _, _⟩ :: cs, h => by
    rcases List.mem_cons.1 h with rfl | h
    · exact Nat.le_max_left _ _
    · exact Nat.le_trans (depth_le_of_mem_calls h) (Nat.le_max_right _ _)

theorem Expression.depth_eq (x : Expression) :
    x.depth = max (argumentDepth x.argument) (expressionsDepth x.children) := by
  cases x with
  | mk => rfl

end Depth

def Call.depth : Call → Nat
  | .select properties | .selectDistinct properties | .selectPropertiesLimit properties _ =>
    expressionsDepth properties
  | .filter predicate | .having predicate => predicate.depth
  | .join _ _ (some on) => on.depth
  | _ => 0

namespace Expression

variable {x : Expression} {q : Query}

theorem Tests.depth (h : x.Tests q) : q.depth < x.depth := by
  obtain ⟨operands, carried, mem⟩ := h.operands
  have inside : q.depth + 1 ≤ operandsDepth operands := depth_le_of_mem_operands mem
  rw [x.depth_eq, carried]
  exact Nat.lt_of_lt_of_le inside (Nat.le_max_left _ _)

theorem Nests.depth (h : x.Nests q) : q.depth < x.depth := by
  induction h with
  | self tests => exact tests.depth
  | @child x y mem _ ih =>
    rw [x.depth_eq]
    exact Nat.lt_of_lt_of_le ih (Nat.le_trans (depth_le_of_mem_expressions mem)
      (Nat.le_max_right _ _))

end Expression

theorem Call.Nests.depth {c : Call} {q : Query} (h : c.Nests q) : q.depth < c.depth := by
  cases c with
  | select xs | selectDistinct xs | selectPropertiesLimit xs limit =>
    obtain ⟨x, mem, tests⟩ := h
    exact Nat.lt_of_lt_of_le tests.depth (depth_le_of_mem_expressions mem)
  | join kind e on =>
    obtain ⟨_, x, rfl, nested⟩ := h
    exact nested.depth
  | filter x | having x => exact Expression.Nests.depth h
  | _ => exact h.elim

namespace RecordedCall

theorem mem_of_argument {α : Type} {c : RecordedCall} {position : Nat} {expected : ArgumentKind}
    {read : CallArgument → Option α} {a : α} (h : c.argument position expected read = .ok a) :
    ∃ found ∈ c.arguments, read found = some a := by
  unfold argument at h
  split at h
  · simp [fail] at h
  · next found eq =>
    refine ⟨found, List.mem_of_getElem? eq, ?_⟩
    split at h
    · next b eq => rw [eq, Except.ok.inj h]
    · simp [fail] at h

theorem properties_depth {c : RecordedCall} {position : Nat} {xs : List Expression}
    (h : c.properties position = .ok xs) :
    expressionsDepth xs ≤ callArgumentsDepth c.arguments := by
  obtain ⟨found, mem, eq⟩ := mem_of_argument h
  split at eq
  · cases eq
    exact depth_le_of_mem_arguments mem
  · cases eq

theorem predicate_depth {c : RecordedCall} {position : Nat} {x : Expression}
    (h : c.predicate position = .ok x) : x.depth ≤ callArgumentsDepth c.arguments := by
  obtain ⟨found, mem, eq⟩ := mem_of_argument h
  split at eq
  · cases eq
    exact depth_le_of_mem_arguments mem
  · cases eq

theorem optionalPredicate_depth {c : RecordedCall} {position : Nat} {on : Option Expression}
    (h : c.optionalPredicate position = .ok on) :
    ∀ x ∈ on, x.depth ≤ callArgumentsDepth c.arguments := by
  unfold optionalPredicate at h
  split at h
  · cases eq : c.predicate position with
    | error e => simp [eq, Except.map] at h
    | ok y =>
      rw [eq] at h
      cases h
      intro x mem
      cases mem
      exact predicate_depth eq
  · cases h
    simp

theorem exists_of_bind {α β : Type} {x : Except QueryError α} {f : α → Except QueryError β} {b : β}
    (h : x >>= f = .ok b) : ∃ a, x = .ok a ∧ f a = .ok b := by
  cases x with
  | error e => cases h
  | ok a => exact ⟨a, rfl, h⟩

theorem depth_le_of_assemble {c : RecordedCall} {entities : List Entity} {call : Call}
    (h : c.assemble entities = .ok call) : call.depth ≤ callArgumentsDepth c.arguments := by
  unfold assemble at h
  split at h
  case h_1 | h_2 =>
    obtain ⟨xs, found, eq⟩ := exists_of_bind h
    cases eq
    exact properties_depth found
  case h_4 =>
    obtain ⟨xs, found, h⟩ := exists_of_bind h
    obtain ⟨limit, _, eq⟩ := exists_of_bind h
    cases eq
    exact properties_depth found
  case h_6 =>
    obtain ⟨kind, _, h⟩ := exists_of_bind h
    obtain ⟨e, _, h⟩ := exists_of_bind h
    obtain ⟨on, found, eq⟩ := exists_of_bind h
    cases eq
    cases on with
    | none => exact Nat.zero_le _
    | some x => exact optionalPredicate_depth found x rfl
  case h_7 | h_9 =>
    obtain ⟨x, found, eq⟩ := exists_of_bind h
    cases eq
    exact predicate_depth found
  case h_11 =>
    obtain ⟨e, _, h⟩ := exists_of_bind h
    obtain ⟨xs, _, eq⟩ := exists_of_bind h
    cases eq
    exact Nat.zero_le _
  case h_18 | h_19 =>
    cases h
    exact Nat.zero_le _
  all_goals
    obtain ⟨a, _, eq⟩ := exists_of_bind h
    cases eq
    exact Nat.zero_le _

theorem depth_le_of_call? {c : RecordedCall} {d : Dialect} {r : Registry} {call : Call}
    (h : c.call? d r = .ok call) : call.depth ≤ callArgumentsDepth c.arguments := by
  unfold call? at h
  split at h
  · obtain ⟨entities, _, h⟩ := exists_of_bind h
    exact depth_le_of_assemble h
  · cases h

theorem replay_congr {n : Nat} {f g : Query → Build Command} (h : AgreeBelow n f g)
    (c : RecordedCall) (le : callArgumentsDepth c.arguments ≤ n) : c.replay f = c.replay g := by
  unfold replay
  congr 1
  funext d
  cases eq : c.call? d.dialect d.registry with
  | error e => rfl
  | ok call =>
    have within : call.depth ≤ n := Nat.le_trans (depth_le_of_call? eq) le
    have same : call.make f = call.make g :=
      Call.make_congr fun q nested => h q (Nat.lt_of_lt_of_le nested.depth within)
    simp only [same]

end RecordedCall

namespace Query

theorem replay_congr {n : Nat} {f g : Query → Build Command} (h : AgreeBelow n f g) (q : Query)
    (le : q.depth ≤ n) : q.replay f = q.replay g := by
  obtain ⟨calls, page⟩ := q
  have same : calls.forM (·.replay f) = calls.forM (·.replay g) :=
    Build.forM_congr fun c mem =>
      RecordedCall.replay_congr h c (Nat.le_trans (depth_le_of_mem_calls mem) le)
  simp only [replay, same]
  rfl

/-- More levels than a query has change nothing. -/
theorem compileWithin_eq : ∀ (m n : Nat) (q : Query), q.depth < m → q.depth < n →
    compileWithin m q = compileWithin n q
  | m + 1, n + 1, q, lm, ln => by
    have agree : AgreeBelow q.depth (compileWithin m) (compileWithin n) := fun p lt =>
      compileWithin_eq m n p (by omega) (by omega)
    simp only [compileWithin, replay_congr agree q (Nat.le_refl _)]

/-- A query is compiled by making its calls, which compile its sub-queries in the same way, and
finishing the draft. -/
theorem compile_eq (q : Query) : q.compile = (do q.replay compile; Build.finish) := by
  have agree : AgreeBelow q.depth (compileWithin q.depth) compile := fun p lt =>
    compileWithin_eq _ _ p lt (Nat.lt_succ_self _)
  rw [compile, compileWithin, replay_congr agree q (Nat.le_refl _)]

end Query
end DmlCompiler
