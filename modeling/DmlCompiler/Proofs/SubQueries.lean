import DmlCompiler.Proofs.Parts

/-! # Sub-queries

The sub-queries that stand directly in an expression or a query, and induction over queries: what
holds of a query if it holds of the recorded ones inside of it holds of every query. -/
namespace DmlCompiler

def Operand.subQuery? : Operand → Option SubQuery
  | .value _ => none
  | .subQuery q => some q

mutual

/-- The sub-queries of the expression and its children, and not those inside of them. -/
def Expression.subQueries : Expression → List SubQuery
  | ⟨_, _, _, _, argument, _, _, _, _, _, children⟩ =>
    argumentSubQueries argument ++ expressionSubQueries children

def expressionSubQueries : List Expression → List SubQuery
  | [] => []
  | x :: xs => x.subQueries ++ expressionSubQueries xs

def argumentSubQueries : Option Argument → List SubQuery
  | none => []
  | some argument => argument.subQueries

def Argument.subQueries : Argument → List SubQuery
  | .value _ | .range _ _ => []
  | .list operands => operands.filterMap Operand.subQuery?
  | .property other => other.subQueries

end

theorem expressionSubQueries_eq (xs : List Expression) :
    expressionSubQueries xs = xs.flatMap (·.subQueries) := by
  induction xs with
  | nil => rfl
  | cons x xs ih => rw [expressionSubQueries, ih, List.flatMap_cons]

def RecordedCall.subQueries (c : RecordedCall) : List SubQuery := c.expressions.flatMap (·.subQueries)

def Query.subQueries (q : Query) : List SubQuery := q.calls.flatMap (·.subQueries)

def Call.subQueries (c : Call) : List SubQuery := c.expressions.flatMap (·.subQueries)

namespace Expression

theorem operand_subQueries {x : Expression} {operands : List Operand} {q : SubQuery}
    (h : x.argument = some (.list operands)) (mem : .subQuery q ∈ operands) : q ∈ x.subQueries := by
  obtain ⟨_, _, _, _, argument, _, _, _, _, _, _⟩ := x
  cases h
  rw [subQueries, argumentSubQueries, Argument.subQueries]
  exact List.mem_append_left _ (List.mem_filterMap.2 ⟨_, mem, rfl⟩)

theorem children_subQueries {x y : Expression} {q : SubQuery} (h : y ∈ x.children)
    (mem : q ∈ y.subQueries) : q ∈ x.subQueries := by
  obtain ⟨_, _, _, _, _, _, _, _, _, _, children⟩ := x
  rw [subQueries, expressionSubQueries_eq]
  exact List.mem_append_right _ (List.mem_flatMap.2 ⟨y, h, mem⟩)

end Expression

section Inside

variable {q : SubQuery}

theorem mem_operands {operands : List Operand} (mem : q ∈ operands.filterMap Operand.subQuery?) :
    .subQuery q ∈ operands := by
  obtain ⟨o, ho, eq⟩ := List.mem_filterMap.1 mem
  cases o with
  | value v => cases eq
  | subQuery q' =>
    cases eq
    exact ho

theorem operandParts_of_mem {operands : List Operand} (mem : .subQuery q ∈ operands) :
    ∀ p ∈ q.parts, p ∈ operandParts operands := by
  intro p hp
  rw [operandParts_eq]
  refine List.mem_flatMap.2 ⟨_, mem, ?_⟩
  rwa [Operand.parts]

theorem operandsDepth_of_mem {operands : List Operand} (mem : .subQuery q ∈ operands) :
    q.depth ≤ operandsDepth operands := by
  induction operands with
  | nil => cases mem
  | cons o os ih =>
    rw [operandsDepth]
    rcases List.mem_cons.1 mem with rfl | mem
    · rw [Operand.depth]
      exact Nat.le_max_left _ _
    · exact Nat.le_trans (ih mem) (Nat.le_max_right _ _)

mutual

/-- What is inside of a sub-query is inside of the expression, which is as deep. -/
theorem Expression.inside_subQuery : ∀ x : Expression, q ∈ x.subQueries →
    (∀ p ∈ q.parts, p ∈ x.parts) ∧ q.depth ≤ x.depth
  | ⟨_, _, _, _, argument, _, _, _, _, _, children⟩, mem => by
    rw [Expression.subQueries] at mem
    rw [Expression.parts, Expression.depth]
    rcases List.mem_append.1 mem with mem | mem
    · obtain ⟨inside, le⟩ := argument_inside_subQuery argument mem
      refine ⟨fun p hp => ?_, Nat.le_trans le (Nat.le_max_left _ _)⟩
      exact List.mem_append_left _ (List.mem_append_right _ (inside p hp))
    · obtain ⟨inside, le⟩ := expressions_inside_subQuery children mem
      refine ⟨fun p hp => ?_, Nat.le_trans le (Nat.le_max_right _ _)⟩
      exact List.mem_append_right _ (inside p hp)

theorem expressions_inside_subQuery : ∀ xs : List Expression, q ∈ expressionSubQueries xs →
    (∀ p ∈ q.parts, p ∈ expressionParts xs) ∧ q.depth ≤ expressionsDepth xs
  | [], mem => by cases mem
  | x :: xs, mem => by
    rw [expressionSubQueries] at mem
    rw [expressionParts, expressionsDepth]
    rcases List.mem_append.1 mem with mem | mem
    · obtain ⟨inside, le⟩ := Expression.inside_subQuery x mem
      exact ⟨fun p hp => List.mem_append_left _ (inside p hp),
        Nat.le_trans le (Nat.le_max_left _ _)⟩
    · obtain ⟨inside, le⟩ := expressions_inside_subQuery xs mem
      exact ⟨fun p hp => List.mem_append_right _ (inside p hp),
        Nat.le_trans le (Nat.le_max_right _ _)⟩

theorem argument_inside_subQuery : ∀ a : Option Argument, q ∈ argumentSubQueries a →
    (∀ p ∈ q.parts, p ∈ argumentParts a) ∧ q.depth ≤ argumentDepth a
  | none, mem => by cases mem
  | some argument, mem => by
    rw [argumentSubQueries] at mem
    rw [argumentParts, argumentDepth]
    exact Argument.inside_subQuery argument mem

theorem Argument.inside_subQuery : ∀ a : Argument, q ∈ a.subQueries →
    (∀ p ∈ q.parts, p ∈ a.parts) ∧ q.depth ≤ a.depth
  | .value _, mem => by cases mem
  | .range _ _, mem => by cases mem
  | .list operands, mem => by
    rw [Argument.subQueries] at mem
    rw [Argument.parts, Argument.depth]
    exact ⟨operandParts_of_mem (mem_operands mem), operandsDepth_of_mem (mem_operands mem)⟩
  | .property other, mem => by
    rw [Argument.subQueries] at mem
    rw [Argument.parts, Argument.depth]
    exact Expression.inside_subQuery other mem

end

end Inside

namespace RecordedCall

theorem call_subQueries {c : RecordedCall} {d : Dialect} {r : Registry} {call : Call}
    (h : c.call? d r = .ok call) : ∀ q ∈ call.subQueries, q ∈ c.subQueries := by
  intro q mem
  obtain ⟨x, hx, mem⟩ := List.mem_flatMap.1 mem
  exact List.mem_flatMap.2 ⟨x, (covers_of_call? h).1 x hx, mem⟩

theorem expression_depth {c : RecordedCall} {x : Expression} (h : x ∈ c.expressions) :
    x.depth ≤ callArgumentsDepth c.arguments := by
  obtain ⟨a, mem, hx⟩ := List.mem_flatMap.1 h
  refine Nat.le_trans ?_ (depth_le_of_mem_arguments mem)
  cases a with
  | properties xs => exact depth_le_of_mem_expressions hx
  | predicate y | assignment y operation =>
    cases List.mem_singleton.1 hx
    exact Nat.le_refl _
  | _ => cases hx

end RecordedCall

namespace Query

theorem mem_subQueries {q : Query} {s : SubQuery} (mem : s ∈ q.subQueries) :
    ∃ c ∈ q.calls, s ∈ c.subQueries := List.mem_flatMap.1 mem

theorem record_parts {q : Query} {c : RecordedCall} (hc : c ∈ q.calls) :
    ∀ p ∈ c.parts, p ∈ q.parts := by
  obtain ⟨calls, page⟩ := q
  intro p hp
  rw [parts, recordedParts_eq]
  exact List.mem_flatMap.2 ⟨c, hc, hp⟩

theorem subQuery_parts {q : Query} {s : SubQuery} (mem : s ∈ q.subQueries) :
    ∀ p ∈ s.parts, p ∈ q.parts := by
  obtain ⟨c, hc, mem⟩ := mem_subQueries mem
  obtain ⟨x, hx, mem⟩ := List.mem_flatMap.1 mem
  intro p hp
  apply record_parts hc
  apply RecordedCall.expression_parts hx
  exact (x.inside_subQuery mem).1 p hp

theorem subQuery_depth {q : Query} {s : SubQuery} (mem : s ∈ q.subQueries) : s.depth ≤ q.depth := by
  obtain ⟨calls, page⟩ := q
  obtain ⟨c, hc, mem⟩ := mem_subQueries mem
  obtain ⟨x, hx, mem⟩ := List.mem_flatMap.1 mem
  have inner := (x.inside_subQuery mem).2
  have outer := RecordedCall.expression_depth hx
  have whole : _ ≤ callsDepth calls := depth_le_of_mem_calls hc
  rw [depth]
  omega

/-- What holds of a query if it holds of the recorded ones inside of it holds of every query. -/
theorem induct {holds : Query → Prop}
    (step : ∀ q, (∀ p, .deferred p ∈ q.subQueries → holds p) → holds q) (q : Query) : holds q := by
  have bounded (n : Nat) : ∀ q : Query, q.depth < n → holds q := by
    induction n with
    | zero => exact fun q lt => (Nat.not_lt_zero _ lt).elim
    | succ n ih =>
      intro q lt
      refine step q fun p mem => ih p ?_
      have le := subQuery_depth mem
      rw [SubQuery.depth] at le
      omega
  exact bounded (q.depth + 1) q (Nat.lt_succ_self _)

end Query
end DmlCompiler
