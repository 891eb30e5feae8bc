import DmlCompiler.Query.Compilation

/-! # Nested queries

The text of a recorded query becomes part of the text of the call that tests a column for membership
in it. A call asks the compiler of sub-queries about no other queries. -/
namespace DmlCompiler

namespace Expression

/-- The expression by itself is a test for membership in the rows of the query, perhaps among other
operands. -/
structure Tests (x : Expression) (q : Query) : Prop where
  isEmpty : x.isEmpty = false
  operator : ∃ operator ∈ x.operator, operator.isMembership = true
  operands : ∃ operands, x.argument = some (.list operands) ∧ .subQuery (.deferred q) ∈ operands

inductive Nests (q : Query) : Expression → Prop where
  | self {x : Expression} (h : x.Tests q) : Nests q x
  | child {x y : Expression} (mem : y ∈ x.children) (h : Nests q y) : Nests q x

end Expression

/-- The text of the query becomes part of the text of the call. Lists to group or sort by, and the
columns of a change, are written without what they are compared with. -/
def Call.Nests (q : Query) : Call → Prop
  | .select xs | .selectDistinct xs | .selectPropertiesLimit xs _ => ∃ x ∈ xs, x.Tests q
  | .join kind _ on => kind.takesPredicate = true ∧ ∃ x ∈ on, x.Nests q
  | .filter x | .having x => x.Nests q
  | _ => False

namespace Build

theorem mapM_congr {α β : Type} {f g : α → Build β} :
    ∀ {l : List α}, (∀ x ∈ l, f x = g x) → l.mapM f = l.mapM g
  | [], _ => rfl
  | x :: l, h => by
    rw [List.mapM_cons, List.mapM_cons, h x (by simp), mapM_congr fun y mem => h y (by simp [mem])]

theorem forM_congr {α : Type} {f g : α → Build Unit} :
    ∀ {l : List α}, (∀ x ∈ l, f x = g x) → l.forM f = l.forM g
  | [], _ => rfl
  | x :: l, h => by
    have rest : l.forM f = l.forM g := forM_congr fun y mem => h y (by simp [mem])
    simp only [List.forM, h x (by simp), rest]

end Build

section Congruence

variable {f g : Query → Build Command}

theorem SubQuery.inline_congr {q : SubQuery} (agree : ∀ p, q = .deferred p → f p = g p) :
    q.inline f = q.inline g := by
  cases q with
  | command c => rfl
  | deferred p => simp only [SubQuery.inline, SubQuery.finish, agree p rfl]

namespace Expression

theorem operand_congr (x : Expression) (alone : Bool) {o : Operand}
    (agree : ∀ p, o = .subQuery (.deferred p) → f p = g p) :
    x.operand f alone o = x.operand g alone o := by
  cases o with
  | value v => rfl
  | subQuery q =>
    have same : q.inline f = q.inline g := SubQuery.inline_congr fun p eq => agree p (eq ▸ rfl)
    simp only [operand, same]

theorem rightSide_congr {x : Expression} {operator : Operator}
    (agree : operator.isMembership = true → ∀ operands, x.argument = some (.list operands) →
      ∀ q, .subQuery (.deferred q) ∈ operands → f q = g q) :
    x.rightSide f operator = x.rightSide g operator := by
  unfold rightSide
  cases carried : x.argument with
  | none => rfl
  | some argument =>
    cases argument with
    | list operands =>
      by_cases listed : operator.isMembership = true ∧ operands ≠ []
      · have same : operands.mapM (x.operand f (operands.length == 1)) =
            operands.mapM (x.operand g (operands.length == 1)) := by
          refine Build.mapM_congr fun o mem => x.operand_congr _ ?_
          rintro q rfl
          exact agree listed.1 operands carried q mem
        simp only [same]
      · simp only [if_neg listed]
    | _ => rfl

theorem condition_congr {x : Expression} (agree : ∀ q, x.Tests q → f q = g q) :
    x.condition f = x.condition g := by
  unfold condition
  cases empty : x.isEmpty with
  | true => simp only [if_true]
  | false =>
    cases operated : x.operator with
    | none => rfl
    | some operator =>
      have same : x.rightSide f operator = x.rightSide g operator :=
        rightSide_congr fun membership operands carried q mem =>
          agree q ⟨empty, ⟨operator, operated, membership⟩, ⟨operands, carried, mem⟩⟩
      simp only [same]

mutual

theorem predicate_congr : ∀ x : Expression, (∀ q, x.Nests q → f q = g q) →
    x.predicate f = x.predicate g
  | ⟨_, _, _, _, _, _, _, _, _, _, children⟩, agree => by
    rw [predicate_eq, predicate_eq, condition_congr fun q tests => agree q (.self tests)]
    simp only [fun sql => appendChildren_congr children sql fun y mem q nested =>
      agree q (.child mem nested)]

theorem appendChildren_congr : ∀ (children : List Expression) (before : Sql),
    (∀ y ∈ children, ∀ q, y.Nests q → f q = g q) →
    appendChildren f before children = appendChildren g before children
  | [], _, _ => by simp only [appendChildren]
  | child :: rest, before, agree => by
    obtain ⟨first, later⟩ := List.forall_mem_cons.1 agree
    simp only [appendChildren]
    rw [predicate_congr child first]
    simp only [fun sql => appendChildren_congr rest sql later]

end

end Expression

namespace Build

theorem selectBlock_congr {xs : List Expression} (distinct : Bool) (limit : Option UInt64)
    (agree : ∀ x ∈ xs, ∀ q, x.Tests q → f q = g q) :
    selectBlock f xs distinct limit = selectBlock g xs distinct limit := by
  have same : (xs.filter (!·.isEmpty)).mapM (select1 f) =
      (xs.filter (!·.isEmpty)).mapM (select1 g) := by
    refine mapM_congr fun x mem => ?_
    have condition : x.condition f = x.condition g :=
      Expression.condition_congr (agree x (List.mem_filter.1 mem).1)
    simp only [select1, Expression.projection, condition]
  simp only [selectBlock, same]

theorem joinEntity_congr {kind : JoinKind} (e : Entity) {on : Option Expression}
    (agree : kind.takesPredicate = true → ∀ x ∈ on, ∀ q, x.Nests q → f q = g q) :
    joinEntity f kind e on = joinEntity g kind e on := by
  have same : onClause f kind e on = onClause g kind e on := by
    unfold onClause
    by_cases takes : kind.takesPredicate = true
    · cases on with
      | none => rfl
      | some x => simp only [Expression.predicate_congr x (agree takes x rfl)]
    · rw [if_neg takes, if_neg takes]
  simp only [joinEntity, same]

end Build

/-- Compilers that agree on the nested queries make the same of the call. -/
theorem Call.make_congr {c : Call} (agree : ∀ q, c.Nests q → f q = g q) : c.make f = c.make g := by
  cases c with
  | select xs | selectDistinct xs | selectPropertiesLimit xs limit =>
    exact Build.selectBlock_congr _ _ fun x mem q tests => agree q ⟨x, mem, tests⟩
  | selectLimit limit =>
    exact Build.selectBlock_congr _ _ fun x mem => (List.not_mem_nil mem).elim
  | join kind e on =>
    exact Build.joinEntity_congr e fun takes x mem q nested => agree q ⟨takes, x, mem, nested⟩
  | filter x => simp only [make, Build.filterBy, Expression.predicate_congr x agree]
  | having x => simp only [make, Build.havingBy, Expression.predicate_congr x agree]
  | _ => rfl

end Congruence
end DmlCompiler
