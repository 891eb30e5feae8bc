import DmlCompiler.Proofs.Build.Yields
import DmlCompiler.Proofs.Conditions.Shapes

/-! # What expressions yield

Over valid names, and commands whose parentheses match, an expression without its children yields
a clause and sub-queries yield balanced text, whatever draft they are rendered on. -/
namespace DmlCompiler

open Build Sql

/-- In its surroundings the draft has valid lists, and the names of the parameters beyond those at
the beginning are balanced. -/
structure Draft.Ready (registry : Registry) (base : List Parameter) (d : Draft) : Prop where
  registry : d.registry = registry
  cache : d.cache.IsValid
  parameters : ∃ added, d.parameters = base ++ added ∧ ∀ p ∈ added, Balanced (ofString p.name)

structure Draft.Tidy (registry : Registry) (d : Draft) : Prop where
  ready : d.Ready registry []
  sql : Balanced d.sql

variable {registry : Registry} {base : List Parameter}

namespace Build

theorem addParameter_preserves (value : SqlValue) (type : Option ColumnType)
    (size : Option UInt32) :
    Preserves (Draft.Ready registry base) (addParameter value type size) := by
  refine yields_get.bind fun d hd => .ite (fun _ => yields_throw_bind _ _) fun _ => ?_
  refine (yields_set ⟨hd.registry, hd.cache, ?_⟩).then fun _ => yields_pure trivial
  obtain ⟨added, eq, names⟩ := hd.parameters
  refine ⟨added ++ [_], by rw [eq, List.append_assoc], ?_⟩
  intro p hp
  rcases List.mem_append.1 hp with hp | hp
  · exact names p hp
  · cases List.mem_singleton.1 hp
    exact balanced_parameterName d.dialect _

theorem bindValue_yields (column : Option ColumnRef) (value : SqlValue) :
    Yields (Draft.Ready registry base) (fun sql => ∃ number, sql = [.place number])
      (bindValue column value) :=
  (addParameter_preserves value _ _).then fun number => yields_pure ⟨number, rfl⟩

end Build

namespace Function

/-- A name before a parenthesis, and what follows it leaves the parentheses beyond that one. -/
def OpensCall (opening : String) : Prop :=
  ∃ name rest depth, opening = name ++ "(" ++ rest ∧ openParentheses opening = depth + 1 ∧
    IsOperand name ∧ LeavesOpen depth (ofString rest)

/-- Only three functions are not spelled as in standard SQL by every dialect. -/
theorem opening_cases (dialect : Dialect) (kind : FunctionKind) :
    dialect.opening kind = kind.opening ∨
      dialect.opening kind ∈ ["LEN(", "SUBSTRING(", "LTRIM(RTRIM("] := by
  cases dialect <;> cases kind <;> first | exact Or.inl rfl | exact Or.inr (by decide)

/-- A function that is no arithmetic has a name before its parentheses. -/
theorem opensCall_opening (dialect : Dialect) {kind : FunctionKind}
    (named : kind.symbol? = none) : OpensCall (dialect.opening kind) := by
  rcases opening_cases dialect kind with standard | other
  · rw [standard]
    refine ⟨String.ofList (kind.opening.toList.takeWhile (· ≠ '(')),
      String.ofList ((kind.opening.toList.dropWhile (· ≠ '(')).drop 1),
      openParentheses kind.opening - 1, ?_, ?_, ?_, ?_⟩ <;>
    · cases kind <;> first | decide | exact fun _ => rfl | cases named
  · simp only [List.mem_cons, List.not_mem_nil, or_false] at other
    rcases other with eq | eq | eq <;> rw [eq]
    · exact ⟨"LEN", "", 0, rfl, rfl, by decide, fun _ => rfl⟩
    · exact ⟨"SUBSTRING", "", 0, rfl, rfl, by decide, fun _ => rfl⟩
    · exact ⟨"LTRIM", "RTRIM(", 1, rfl, rfl, by decide, fun _ => rfl⟩

theorem arithmetic_opening (dialect : Dialect) {kind : FunctionKind} {symbol : String}
    (arithmetic : kind.symbol? = some symbol) : dialect.opening kind = "(" ∧ IsOperand symbol := by
  have operand : symbol ∈ ["+", "-", "*", "/"] := by
    cases kind <;> cases arithmetic <;> decide
  constructor
  · cases dialect <;> cases kind <;> first | rfl | cases arithmetic
  · have decided : ∀ s ∈ ["+", "-", "*", "/"], IsOperand s := by decide
    exact decided symbol operand

theorem balanced_separator (kind : FunctionKind) : Balanced (ofString kind.separator) := by
  cases kind <;> exact fun _ => rfl

theorem wholeLength_balanced (f : Function) (dialect : Dialect) {inner : Sql}
    (balanced : Balanced inner) : Balanced (f.wholeLength dialect inner) := by
  have opens : LeavesOpen 1 (ofString "LEN(") := fun _ => rfl
  unfold wholeLength
  split
  · next length eq =>
    split
    · unfold Dialect.wholeLength? at eq
      split at eq
      · cases eq
        exact (balanced_separator f.kind).append (opens.append balanced).close
      · cases eq
    · exact balanced_nil
  · exact balanced_nil

theorem wholeLength_arithmetic {f : Function} {symbol : String}
    (arithmetic : f.kind.symbol? = some symbol) (dialect : Dialect) (inner : Sql) :
    f.wholeLength dialect inner = [] := by
  unfold wholeLength
  split
  · split
    · next whole =>
      rw [whole.1] at arithmetic
      cases arithmetic
    · rfl
  · rfl

theorem apply_yields (f : Function) {inner : Sql} (h : Term inner) :
    Yields (Draft.Ready registry base) Term (f.apply inner) := by
  refine yields_get.bind fun d _ => ?_
  have each : ∀ value ∈ f.params, Yields (Draft.Ready registry base)
      (fun sql => ∃ number, sql = ofString f.kind.separator ++ [.place number])
      (do return ofString f.kind.separator ++ (← bindValue none value)) := by
    intro value _
    refine (bindValue_yields none value).bind fun place isPlace => yields_pure ?_
    obtain ⟨number, rfl⟩ := isPlace
    exact ⟨number, rfl⟩
  refine (yields_mapM each).bind fun params places => yields_pure ?_
  have closing : ofString ")" = [.char ')'] := rfl
  cases arithmetic : f.kind.symbol? with
  | some symbol =>
    obtain ⟨opening, operand⟩ := arithmetic_opening d.dialect arithmetic
    have term : Term (inner ++ params.flatten).parenthesize := by
      refine .arithmetic h fun o ho => ?_
      obtain ⟨number, rfl⟩ := places o ho
      exact ⟨symbol, number, operand, by rw [FunctionKind.separator, arithmetic]⟩
    rw [opening, wholeLength_arithmetic arithmetic]
    simpa [parenthesize, closing, openParentheses] using term
  | none =>
    obtain ⟨name, rest, depth, opening, count, operand, opens⟩ :=
      opensCall_opening d.dialect arithmetic
    have balanced : Balanced params.flatten := by
      refine balanced_flatten fun o ho => ?_
      obtain ⟨number, rfl⟩ := places o ho
      exact (balanced_separator f.kind).append (balanced_place number)
    have arguments := ((opens.append h.balanced).append balanced).append
      (wholeLength_balanced f d.dialect h.balanced)
    have term := Term.call operand arguments.close
    rw [count, List.replicate_succ', opening, ofString_append, ofString_append]
    simpa [parenthesize, closing] using term

end Function

theorem Command.inline_yields {c : Command} (h : c.IsBalanced) :
    Yields (Draft.Ready registry base) Balanced c.inline := by
  refine .ite (fun _ => yields_throw_bind _ _) fun _ => ?_
  have each : ∀ p ∈ c.parameters, Yields (Draft.Ready registry base)
      (fun rename : String × Nat => Balanced (ofString rename.1))
      (do return (p.name, ← addParameter p.value p.type p.size)) := by
    intro p hp
    exact (addParameter_preserves p.value p.type p.size).then fun _ => yields_pure (h.names p hp)
  exact (yields_mapM each).bind fun renames names => yields_pure (ofFinished_balanced h.sql names)

def Balances (registry : Registry) (compile : Query → Build Command) : Prop :=
  ∀ q : Query, (∀ p ∈ q.parts, p.IsValid Command.IsBalanced registry) →
    Yields (Draft.Tidy registry) Command.IsBalanced (compile q)

variable {compile : Query → Build Command}

theorem SubQuery.inline_yields (hc : Balances registry compile) {q : SubQuery}
    (valid : ∀ p ∈ q.parts, p.IsValid Command.IsBalanced registry) :
    Yields (Draft.Ready registry base) Balanced (q.inline compile) := by
  have finished : Yields (Draft.Ready registry base) Command.IsBalanced (q.finish compile) := by
    cases q with
    | command c => exact yields_pure (valid (.command c) (by simp [parts]))
    | deferred query =>
      intro d c d' hd given
      obtain ⟨child, compiled, rfl⟩ := gives_inChild.1 given
      have fresh : d.child.Tidy registry :=
        ⟨⟨hd.registry, hd.cache, [], rfl, List.forall_mem_nil _⟩, balanced_nil⟩
      obtain ⟨tidy, balanced⟩ := hc query (by simpa [parts] using valid) fresh compiled
      exact ⟨⟨hd.registry, tidy.ready.cache, hd.parameters⟩, balanced⟩
  exact finished.bind fun c balanced => c.inline_yields balanced

namespace Expression

variable {x : Expression}

theorem base_yields (valid : ∀ p ∈ x.parts, p.IsValid Command.IsBalanced registry) :
    Yields (Draft.Ready registry base) Term x.base := by
  have wildcard : IsOperand wildcardName := by decide
  refine .ite (fun _ => yields_pure (.operand wildcard)) fun _ => ?_
  split
  · next column eq =>
    have names : column.IsValid := valid _ (column_mem_parts eq)
    exact yields_pure (.operand (isOperand_column names))
  · exact yields_throw _

theorem reference_yields (valid : ∀ p ∈ x.parts, p.IsValid Command.IsBalanced registry) :
    Yields (Draft.Ready registry base) Term x.reference :=
  (base_yields valid).bind fun _ term =>
    yields_foldlM (fun _ f term => f.apply_yields term) x.functions term

theorem operand_yields (hc : Balances registry compile) (alone : Bool) {o : Operand}
    (valid : ∀ p ∈ o.parts, p.IsValid Command.IsBalanced registry) :
    Yields (Draft.Ready registry base) Balanced (x.operand compile alone o) := by
  cases o with
  | value v =>
    refine (bindValue_yields x.typed v).mono ?_
    rintro _ ⟨number, rfl⟩
    exact balanced_place number
  | subQuery q =>
    refine (q.inline_yields hc (by simpa [Operand.parts] using valid)).bind fun sql balanced => ?_
    cases alone with
    | true => exact yields_pure balanced
    | false => exact yields_pure balanced.parenthesize

theorem rightSide_yields (hc : Balances registry compile) {operator : Operator}
    (valid : ∀ p ∈ x.parts, p.IsValid Command.IsBalanced registry) :
    Yields (Draft.Ready registry base)
      (fun sql => ∃ a, x.argument = some a ∧ RightSide operator a sql)
      (x.rightSide compile operator) := by
  have comma : Balanced (ofString ", ") := fun _ => rfl
  unfold rightSide
  split
  · next other eq =>
    have inside := argument_parts eq
    rw [Argument.parts] at inside
    refine (reference_yields fun p hp => valid p (inside p hp)).mono fun sql term => ?_
    exact ⟨_, eq, .property term⟩
  · next low high eq =>
    refine .ite (fun double => ?_) fun _ => yields_throw _
    refine (bindValue_yields x.typed low).bind fun _ isLow => ?_
    refine (bindValue_yields x.typed high).bind fun _ isHigh => yields_pure ?_
    obtain ⟨low, rfl⟩ := isLow
    obtain ⟨high, rfl⟩ := isHigh
    exact ⟨_, eq, .range double low high⟩
  · next operands eq =>
    have inside := argument_parts eq
    rw [Argument.parts, operandParts_eq] at inside
    refine .ite (fun membership => ?_) fun _ => yields_throw _
    have each : ∀ o ∈ operands, Yields (Draft.Ready registry base) Balanced
        (x.operand compile (operands.length == 1) o) := fun o ho =>
      operand_yields hc _ fun p hp => valid p (inside p (List.mem_flatMap.2 ⟨o, ho, hp⟩))
    refine (yields_mapM each).bind fun items balanced => yields_pure ?_
    have single : operator.isRange = false := by
      obtain ⟨membership, _⟩ := membership
      cases operator <;> first | rfl | cases membership
    exact ⟨_, eq, .list single (balanced_join comma balanced)⟩
  · next value eq =>
    refine .ite (fun _ => yields_throw _) fun other => ?_
    refine (bindValue_yields x.typed value).mono ?_
    rintro _ ⟨number, rfl⟩
    have single : operator.isRange = false := by
      by_contra double
      exact other (Or.inl (by simpa using double))
    exact ⟨_, eq, .value single number⟩
  · exact yields_throw _

theorem condition_yields (hc : Balances registry compile)
    (valid : ∀ p ∈ x.parts, p.IsValid Command.IsBalanced registry) :
    Yields (Draft.Ready registry base)
      (fun sql => sql = [] ∨ IsClause x.operator x.argument sql) (x.condition compile) := by
  refine .ite (fun _ => yields_pure (Or.inl rfl)) fun _ => ?_
  refine (reference_yields valid).bind fun left term => ?_
  split
  · next none =>
    rw [none]
    exact yields_pure (Or.inr (.term term))
  · next operator eq =>
    rw [eq]
    refine .ite (fun null => yields_pure (Or.inr (.nullCheck null term))) fun _ => ?_
    refine (rightSide_yields hc valid).bind fun right shape => yields_pure (Or.inr ?_)
    obtain ⟨argument, found, shape⟩ := shape
    rw [found]
    exact .comparison term shape

theorem condition_balanced (hc : Balances registry compile)
    (valid : ∀ p ∈ x.parts, p.IsValid Command.IsBalanced registry) :
    Yields (Draft.Ready registry base) Balanced (x.condition compile) := by
  refine (condition_yields hc valid).mono ?_
  rintro sql (rfl | clause)
  · exact balanced_nil
  · exact clause.balanced

theorem grouped_balanced {sql : Sql} (h : Balanced sql) : Balanced (x.grouped sql) := by
  unfold grouped
  split
  · exact h
  · exact h.parenthesize

theorem joined_balanced {before sql : Sql} (hb : Balanced before) (h : Balanced sql) :
    Balanced (x.joined before sql) := by
  have connective : Balanced (ofString s!" {(x.connective.getD .and).sql} ") := by
    rcases x.connective with _ | _ | _ <;> exact fun _ => rfl
  unfold joined
  split
  · exact hb
  · split
    · exact h
    · exact (hb.append connective).append h

mutual

theorem predicate_balanced (hc : Balances registry compile) :
    ∀ {x : Expression}, (∀ p ∈ x.parts, p.IsValid Command.IsBalanced registry) →
      Yields (Draft.Ready registry base) Balanced (x.predicate compile)
  | ⟨a, b, c, o, e, f, g, h, negated, i, children⟩, valid => by
    rw [predicate_eq]
    refine (condition_balanced hc valid).bind fun own balanced => ?_
    refine (appendChildren_balanced hc (fun y hy p hp => valid p (children_parts hy p hp))
      balanced).bind fun sql balanced => yields_pure ?_
    have not : Balanced (ofString "NOT ") := fun _ => rfl
    split
    · exact not.append balanced.parenthesize
    · exact balanced

theorem appendChildren_balanced (hc : Balances registry compile) :
    ∀ {children : List Expression} {before : Sql},
      (∀ x ∈ children, ∀ p ∈ x.parts, p.IsValid Command.IsBalanced registry) → Balanced before →
      Yields (Draft.Ready registry base) Balanced (appendChildren compile before children)
  | [], before, valid, balanced => by
    rw [appendChildren]
    exact yields_pure balanced
  | child :: rest, before, valid, balanced => by
    rw [appendChildren]
    refine (predicate_balanced hc (valid child List.mem_cons_self)).bind fun sql own => ?_
    exact appendChildren_balanced hc (fun x hx => valid x (List.mem_cons_of_mem child hx))
      (joined_balanced balanced (grouped_balanced own))

end

end Expression

end DmlCompiler
