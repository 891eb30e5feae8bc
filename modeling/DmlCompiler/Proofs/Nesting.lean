import DmlCompiler.Proofs.Build.Steps
import DmlCompiler.Proofs.Nodes

/-! # Nested queries are compiled

A call that succeeds has compiled the queries that are nested in it, each on an empty draft in the
surroundings that the call began in. -/
namespace DmlCompiler

open Build Draft

namespace Expression.Nests

variable {x : Expression} {q : Query}

theorem mem_subQueries (h : x.Nests q) : .deferred q ∈ x.subQueries := by
  induction h with
  | self tests =>
    obtain ⟨operands, carried, mem⟩ := tests.operands
    exact operand_subQueries carried mem
  | child mem _ ih => exact children_subQueries mem ih

/-- The nodes of a nested query are nodes of the expression, and its parts are parts of it. -/
theorem nodes (h : x.Nests q) : ∀ z ∈ q.nodes, z ∈ x.nodes := by
  intro z mem
  induction h with
  | self tests =>
    obtain ⟨operands, carried, inside⟩ := tests.operands
    exact operand_nodes carried inside mem
  | child below _ ih => exact children_nodes below ih

theorem parts (h : x.Nests q) : ∀ p ∈ q.parts, p ∈ x.parts :=
  (x.inside_subQuery h.mem_subQueries).1

end Expression.Nests

theorem Call.Nests.expression {c : Call} {q : Query} (h : c.Nests q) :
    ∃ x ∈ c.expressions, x.Nests q := by
  cases c with
  | select xs | selectDistinct xs | selectPropertiesLimit xs limit =>
    obtain ⟨x, mem, tests⟩ := h
    exact ⟨x, mem, .self tests⟩
  | join kind e on =>
    obtain ⟨_, x, mem, nested⟩ := h
    exact ⟨x, Option.mem_toList.2 mem, nested⟩
  | filter x | having x => exact ⟨x, List.mem_cons_self, h⟩
  | _ => exact h.elim

theorem Call.Nests.mem_subQueries {c : Call} {q : Query} (h : c.Nests q) :
    .deferred q ∈ c.subQueries := by
  obtain ⟨x, hx, nested⟩ := h.expression
  exact List.mem_flatMap.2 ⟨x, hx, nested.mem_subQueries⟩

variable {α β ι : Type} {compile : Query → Build Command} {q : Query}

namespace Build

/-- Wherever the operation succeeds it has compiled the query. -/
def Compiles (compile : Query → Build Command) (q : Query) (x : Build α) : Prop :=
  ∀ ⦃d a d'⦄, Gives x d a d' → ∃ d₁ c d₂, d.SameGround d₁ ∧ Gives (compile q) d₁.child c d₂

theorem Compiles.first {x : Build α} {f : α → Build β} (hx : Compiles compile q x) :
    Compiles compile q (x >>= f) := by
  intro d b d' given
  obtain ⟨_, _, first, _⟩ := gives_bind.1 given
  exact hx first

theorem Compiles.rest {x : Build α} {f : α → Build β} (hx : Keeps SameGround x)
    (hf : ∀ a, Compiles compile q (f a)) : Compiles compile q (x >>= f) := by
  intro d b d' given
  obtain ⟨a, d₁, first, second⟩ := gives_bind.1 given
  obtain ⟨d₂, c, d₃, same, compiled⟩ := hf a second
  exact ⟨d₂, c, d₃, IsTrans.trans _ _ _ (hx first) same, compiled⟩

theorem compiles_mapM {f : ι → Build α} (hf : ∀ i, Keeps SameGround (f i)) {is : List ι} {i : ι}
    (mem : i ∈ is) (hi : Compiles compile q (f i)) : Compiles compile q (is.mapM f) := by
  induction is with
  | nil => cases mem
  | cons j is ih =>
    rw [List.mapM_cons]
    rcases List.mem_cons.1 mem with rfl | mem
    · exact hi.first
    · exact .rest (hf j) fun _ => (ih mem).first

end Build

theorem SubQuery.inline_compiles : Compiles compile q ((SubQuery.deferred q).inline compile) := by
  refine Compiles.first (x := inChild (compile q)) ?_
  intro d c d' given
  obtain ⟨child, compiled, _⟩ := gives_inChild.1 given
  exact ⟨d, c, child, refl d, compiled⟩

namespace Expression

variable {x : Expression}

theorem condition_compiles (tests : x.Tests q) : Compiles compile q (x.condition compile) := by
  obtain ⟨shown, ⟨operator, operated, membership⟩, ⟨operands, carried, mem⟩⟩ := tests
  have operated : x.operator = some operator := operated
  have listed : operator.isMembership = true ∧ operands ≠ [] := ⟨membership, List.ne_nil_of_mem mem⟩
  have compares : operator.isNullCheck = false := by
    cases operator <;> first | rfl | cases membership
  have each (o : Operand) : Keeps SameGround (x.operand compile (operands.length == 1) o) :=
    (x.operand_appends _ o).ground
  have right : Compiles compile q (x.rightSide compile operator) := by
    unfold rightSide
    simp only [carried, if_pos listed]
    exact (compiles_mapM each mem SubQuery.inline_compiles.first).first
  unfold condition
  simp only [shown, operated, compares, Bool.false_eq_true, if_false]
  exact .rest x.reference_appends.ground fun _ => right.first

theorem appendChildren_compiles {y : Expression} (hy : Compiles compile q (y.predicate compile))
    {children : List Expression} (mem : y ∈ children) (before : Sql) :
    Compiles compile q (appendChildren compile before children) := by
  induction children generalizing before with
  | nil => cases mem
  | cons child rest ih =>
    rw [appendChildren]
    rcases List.mem_cons.1 mem with rfl | mem
    · exact hy.first
    · exact .rest child.predicate_appends.ground fun sql => ih mem _

theorem predicate_compiles (nested : x.Nests q) : Compiles compile q (x.predicate compile) := by
  induction nested with
  | self tests =>
    rw [predicate_eq]
    exact (condition_compiles tests).first
  | @child x y mem _ ih =>
    rw [predicate_eq]
    exact .rest x.condition_appends.ground fun sql => (appendChildren_compiles ih mem sql).first

end Expression

namespace Build

theorem selectBlock_compiles {xs : List Expression} {x : Expression} (mem : x ∈ xs)
    (tests : x.Tests q) (distinct : Bool) (limit : Option UInt64) :
    Compiles compile q (selectBlock compile xs distinct limit) := by
  have shown : x ∈ xs.filter (!·.isEmpty) := List.mem_filter.2 ⟨mem, by simp [tests.isEmpty]⟩
  have projected : Compiles compile q (x.projection compile) :=
    .rest (x.checkPermission_keeps .select) fun _ => (x.condition_compiles tests).first
  have steps := sameGround_holdsOverSteps
  refine .rest (keeps_expect .select) fun _ => .rest (steps.limited limit) fun _ => ?_
  refine Compiles.rest (keeps_modify fun d => steps.kind d .select) fun _ => ?_
  refine .rest (steps.written _) fun _ => ?_
  exact (compiles_mapM steps.projected shown projected.first).first

theorem joinEntity_compiles {kind : JoinKind} (takes : kind.takesPredicate = true) (e : Entity)
    {x : Expression} (nested : x.Nests q) :
    Compiles compile q (joinEntity compile kind e (some x)) := by
  have condition : Compiles compile q (onClause compile kind e (some x)) := by
    unfold onClause
    simp only [takes, if_true]
    exact (x.predicate_compiles nested).first
  refine .rest (keeps_expect .join) fun _ => ?_
  exact .rest (HoldsWithin.permissionChecked e .select) fun _ => condition.first

end Build

/-- A call that succeeds has compiled the queries that are nested in it. -/
theorem Call.make_compiles {c : Call} (nested : c.Nests q) :
    Compiles compile q (c.make compile) := by
  cases c with
  | select xs | selectDistinct xs | selectPropertiesLimit xs limit =>
    obtain ⟨x, mem, tests⟩ := nested
    exact selectBlock_compiles mem tests _ _
  | join kind e on =>
    obtain ⟨takes, x, rfl, nested⟩ := nested
    exact joinEntity_compiles takes e nested
  | filter x =>
    exact .rest (keeps_expect .where) fun _ => (x.predicate_compiles nested).first
  | having x =>
    exact .rest (keeps_expect .having) fun _ => (x.predicate_compiles nested).first
  | _ => exact nested.elim

end DmlCompiler
