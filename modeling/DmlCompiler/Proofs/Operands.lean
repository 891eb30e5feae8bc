import DmlCompiler.Proofs.Comparisons

/-! # What stands behind an operator

A test for null has nothing behind it, one of a range two operands and AND between them, one of
membership a list in parentheses, and every other operator one operand. An argument of another shape
is refused, but for one: a column is taken behind every operator, also where two bounds or a list
belong. -/
namespace DmlCompiler

open Build Sql

namespace Operator

inductive Writes (op : Operator) : List Sql → Sql → Prop where
  | nothing (h : op.isNullCheck = true) : Writes op [] []
  | bounds (h : op.isRange = true) (low high : Sql) :
      Writes op [low, high] (ofString " " ++ (low ++ ofString " AND " ++ high))
  | entries (h : op.isMembership = true) {items : List Sql} (some : items ≠ []) :
      Writes op items (ofString " " ++ (join ", " items).parenthesize)
  | operand (check : op.isNullCheck = false) (range : op.isRange = false)
      (membership : op.isMembership = false) (right : Sql) :
      Writes op [right] (ofString " " ++ right)

/-- The argument is what an operator of this sort stands before. -/
def suits (op : Operator) : Argument → Bool
  | .value _ => !op.isRange && !op.isMembership
  | .range _ _ => op.isRange
  | .list operands => op.isMembership && !operands.isEmpty
  | .property other => !op.isRange && !op.isMembership && !other.isEmpty

/-- The operator can have the argument. A test for null looks at none. -/
def takes (op : Operator) (argument : Option Argument) : Bool :=
  op.isNullCheck || argument.any op.suits

/-- A column stands where two bounds or a list belong. -/
def misplaces (op : Operator) : Option Argument → Bool
  | some (.property other) => (op.isRange || op.isMembership) && !other.isEmpty
  | _ => false

theorem takes_eq_false {op : Operator} {argument : Option Argument} :
    op.takes argument = false ↔ op.isNullCheck = false ∧ argument.any op.suits = false :=
  Bool.or_eq_false_iff

end Operator

variable {compile : Query → Build Command} {ground d d' d₁ : Draft} {x : Expression}
  {op : Operator} {sql left : Sql} {n : Nat}

namespace Expression

/-- The operands that the node's own argument gives: the places of its values, the entries of its
list, or the column that it names. -/
inductive Operands (compile : Query → Build Command) (ground : Draft) (x : Expression)
    (op : Operator) : Nat → List Sql → Prop where
  | none (h : op.isNullCheck = true) (n : Nat) : Operands compile ground x op n []
  | value {v : SqlValue} (h : x.argument = some (.value v)) (n : Nat) :
      Operands compile ground x op n [[.place (n + 1)]]
  | range {low high : SqlValue} (h : x.argument = some (.range low high)) (n : Nat) :
      Operands compile ground x op n [[.place (n + 1)], [.place (n + 2)]]
  | list {operands : List Operand} {n : Nat} {items : List Sql} {bs : List Binding}
      (h : x.argument = some (.list operands))
      (shown : InTurn (Operand.Shows compile ground x.typed (operands.length == 1)) operands n
        items bs) :
      Operands compile ground x op n items
  | property {other : Expression} (h : x.argument = some (.property other)) (n : Nat) :
      Operands compile ground x op n [other.referenceText ground.dialect n]

/-- The text behind the operator is that of its operands, as the operator wants them. -/
def WellFormed (compile : Query → Build Command) (ground : Draft) (x : Expression) (op : Operator)
    (n : Nat) (right : Sql) : Prop :=
  op.takes x.argument = true ∧ ∃ operands, x.Operands compile ground op n operands ∧
    op.Writes operands right

/-- One column stands behind an operator that wants two bounds or a list. -/
def Misplaced (ground : Draft) (x : Expression) (op : Operator) (n : Nat) (right : Sql) : Prop :=
  op.misplaces x.argument = true ∧ ∃ other, x.argument = some (.property other) ∧
    right = ofString " " ++ other.referenceText ground.dialect n

end Expression

theorem InTurn.ne_nil {ι α : Type} {shows : ι → Nat → α → List Binding → Prop} {is : List ι}
    {as : List α} {bs : List Binding} (h : InTurn shows is n as bs) (some : is ≠ []) : as ≠ [] := by
  cases h with
  | nil => exact absurd rfl some
  | cons => exact List.cons_ne_nil _ _

/-- Whatever an argument shows behind its operator is well formed, or a misplaced column. -/
theorem Argument.Shows.wellFormed_or_misplaced {a : Argument} {right : Sql} {bs : List Binding}
    (binary : op.isNullCheck = false) (present : x.argument = some a)
    (shown : a.Shows compile ground x.typed op n right bs) :
    x.WellFormed compile ground op n (ofString " " ++ right) ∨
      x.Misplaced ground op n (ofString " " ++ right) := by
  cases shown with
  | value v n one =>
    rw [not_or, Bool.not_eq_true, Bool.not_eq_true] at one
    obtain ⟨range, membership⟩ := one
    left
    refine ⟨?_, _, .value present n, .operand binary range membership _⟩
    simp [Operator.takes, Operator.suits, present, range, membership]
  | range low high n isRange =>
    left
    refine ⟨?_, _, .range present n, .bounds isRange _ _⟩
    simp [Operator.takes, Operator.suits, present, isRange]
  | @list operands n items bs isMembership some shown =>
    left
    refine ⟨?_, _, .list present shown, .entries isMembership (shown.ne_nil some)⟩
    simp [Operator.takes, Operator.suits, present, isMembership, some]
  | @property other some n =>
    by_cases wantsMore : op.isRange = true ∨ op.isMembership = true
    · right
      refine ⟨?_, other, present, rfl⟩
      simp [Operator.misplaces, present, wantsMore, some]
    · rw [not_or, Bool.not_eq_true, Bool.not_eq_true] at wantsMore
      obtain ⟨range, membership⟩ := wantsMore
      left
      refine ⟨?_, _, .property present n, .operand binary range membership _⟩
      simp [Operator.takes, Operator.suits, present, range, membership, some]

namespace Expression

/-- Where the rendering of a comparison succeeds, its text is well formed, or has a misplaced
column. -/
theorem condition_wellFormed_or_misplaced (named : x.isEmpty = false)
    (present : x.operator = some op) (given : Gives (x.condition compile) d sql d') :
    ∃ right,
      sql = x.referenceText d.dialect d.parameters.length ++ ofString s!" {op.sql}" ++ right ∧
      (x.WellFormed compile d op (d.parameters.length + x.functionBindings.length) right ∨
        x.Misplaced d op (d.parameters.length + x.functionBindings.length) right) := by
  obtain ⟨bs, shows, -⟩ := condition_shows named d.reaches_refl given
  cases shows with
  | reference absent n =>
    rw [present] at absent
    cases absent
  | check found isNullCheck n =>
    rw [present] at found
    cases found
    refine ⟨[], by rw [List.append_nil], .inl ⟨?_, [], .none isNullCheck _, .nothing isNullCheck⟩⟩
    simp [Operator.takes, isNullCheck]
  | comparison found binary argument shown =>
    rw [present] at found
    cases found
    exact ⟨_, List.append_assoc .., shown.wellFormed_or_misplaced binary argument⟩

def refusal (x : Expression) (op : Operator) : QueryError :=
  match x.argument with
  | some (.property other) => .metadataResolution other.entity other.property
  | _ => .emptyArgument x.property op

theorem reference_refused {other : Expression} (empty : other.isEmpty = true) (d : Draft) :
    other.reference.run d = (.error (.metadataResolution other.entity other.property), d) := by
  rw [isEmpty, Bool.and_eq_true, Option.isNone_iff_eq_none, Bool.not_eq_true'] at empty
  obtain ⟨column, named⟩ := empty
  have base : other.base = throw (.metadataResolution other.entity other.property) := by
    rw [Expression.base, if_neg (by simp [named]), column]
  rw [reference, run_bind, base]
  rfl

/-- An argument that the operator does not take, and that is no column, is refused. -/
theorem rightSide_refused (refused : op.takes x.argument = false)
    (placed : op.misplaces x.argument = false) (d : Draft) :
    (x.rightSide compile op).run d = (.error (x.refusal op), d) := by
  obtain ⟨-, unsuited⟩ := Operator.takes_eq_false.1 refused
  unfold rightSide refusal
  cases argument : x.argument with
  | none => rfl
  | some a =>
    rw [argument] at unsuited placed
    change op.suits a = false at unsuited
    cases a with
    | value v =>
      have more : op.isRange = true ∨ op.isMembership = true := by
        by_contra neither
        rw [not_or, Bool.not_eq_true, Bool.not_eq_true] at neither
        simp [Operator.suits, neither] at unsuited
      dsimp only
      rw [if_pos more]
      rfl
    | range low high =>
      have narrow : ¬ op.isRange = true := by simpa [Operator.suits] using unsuited
      dsimp only
      rw [if_neg narrow]
      rfl
    | list operands =>
      have wrong : ¬ (op.isMembership = true ∧ operands ≠ []) := by
        rintro ⟨membership, some⟩
        simp [Operator.suits, membership, some] at unsuited
      dsimp only
      rw [if_neg wrong]
      rfl
    | property other =>
      apply reference_refused
      by_contra occupied
      rw [Bool.not_eq_true] at occupied
      simp only [Operator.suits, Operator.misplaces, occupied, Bool.not_false, Bool.and_true]
        at unsuited placed
      rw [Bool.or_eq_false_iff] at placed
      simp [placed] at unsuited

theorem condition_refused (named : x.isEmpty = false) (present : x.operator = some op)
    (refused : op.takes x.argument = false) (placed : op.misplaces x.argument = false)
    (referred : x.reference.run d = (.ok left, d₁)) :
    (x.condition compile).run d = (.error (x.refusal op), d₁) := by
  obtain ⟨binary, -⟩ := Operator.takes_eq_false.1 refused
  rw [condition, if_neg (by simp [named]), run_bind, referred, present]
  dsimp only
  rw [if_neg (by simp [binary]), run_bind, rightSide_refused refused placed]

theorem condition_fails (named : x.isEmpty = false) (present : x.operator = some op)
    (refused : op.takes x.argument = false) (placed : op.misplaces x.argument = false)
    (d : Draft) : ∃ e d', (x.condition compile).run d = (.error e, d') := by
  rcases referred : x.reference.run d with ⟨e | left, d₁⟩
  · refine ⟨e, d₁, ?_⟩
    rw [condition, if_neg (by simp [named]), run_bind, referred]
  · exact ⟨_, _, condition_refused named present refused placed referred⟩

end Expression

/-- A comparison that is rendered has behind its operator the operands of its own argument, in the
form that the operator wants, or else one column where two bounds or a list belong. An argument that
the operator does not take, and that is no such column, is refused, with an error about it as soon
as the left side is written. -/
theorem comparisons_have_their_operands (compile : Query → Build Command) (d : Draft)
    (x : Expression) (op : Operator) (named : x.isEmpty = false)
    (present : x.operator = some op) :
    (∀ (sql : Sql) (d' : Draft), (x.condition compile).run d = (.ok sql, d') →
      ∃ right,
        sql = x.referenceText d.dialect d.parameters.length ++ ofString s!" {op.sql}" ++ right ∧
        (x.WellFormed compile d op (d.parameters.length + x.functionBindings.length) right ∨
          x.Misplaced d op (d.parameters.length + x.functionBindings.length) right)) ∧
    (op.takes x.argument = false → op.misplaces x.argument = false →
      (∃ e d', (x.condition compile).run d = (.error e, d')) ∧
      ∀ (left : Sql) (d₁ : Draft), x.reference.run d = (.ok left, d₁) →
        (x.condition compile).run d = (.error (x.refusal op), d₁)) := by
  constructor
  · intro sql d' rendered
    exact Expression.condition_wellFormed_or_misplaced named present rendered
  · intro refused placed
    refine ⟨Expression.condition_fails named present refused placed d, fun left d₁ referred => ?_⟩
    exact Expression.condition_refused named present refused placed referred

/-- An amount between two bounds is rendered, and one between a single bound refused. -/
theorem comparisons_have_their_operands_amounts :
    let d := Draft.new .postgres (.new true) {} []
    let bounded := amount.between (.integer 2) (.integer 7)
    let halved := amount.compare .between (.value (.integer 2))
    (∃ sql d' right, (bounded.condition Query.compile).run d = (.ok sql, d') ∧
      sql.text .postgres = "Orders.Amount BETWEEN $1 AND $2" ∧
      bounded.WellFormed Query.compile d .between 0 right) ∧
    ∃ d', (halved.condition Query.compile).run d =
      (.error (.emptyArgument "Amount" .between), d') := by
  intro d bounded halved
  constructor
  · have text : ((bounded.condition Query.compile).run d).1.map (Sql.text .postgres) =
        .ok "Orders.Amount BETWEEN $1 AND $2" := by decide +kernel
    rcases rendered : (bounded.condition Query.compile).run d with ⟨e | sql, d'⟩
    · rw [rendered] at text
      cases text
    · rw [rendered] at text
      obtain ⟨right, -, shaped⟩ :=
        (comparisons_have_their_operands Query.compile d bounded .between rfl rfl).1 sql d' rendered
      refine ⟨sql, d', right, rfl, Except.ok.inj text, ?_⟩
      rcases shaped with wellFormed | misplaced
      · exact wellFormed
      · cases misplaced.1
  · obtain ⟨-, refused⟩ :=
      (comparisons_have_their_operands Query.compile d halved .between rfl rfl).2 rfl rfl
    exact ⟨_, refused _ _ rfl⟩

def amountBetweenNumber : Expression :=
  amount.compareProperty .between
    (.bare "Order" "OrderID" (some ⟨"Orders", "OrderID", .bigInt, none, .all⟩))

/-- One column is taken for two bounds, and no text with them could be this one. -/
theorem column_taken_for_bounds :
    ((amountBetweenNumber.condition Query.compile).run (Draft.new .standard (.new true) {} [])).1 =
        .ok (ofString "Orders.Amount BETWEEN Orders.OrderID") ∧
      ¬ ∃ operands right, ofString "Orders.Amount BETWEEN Orders.OrderID" =
        ofString "Orders.Amount BETWEEN" ++ right ∧ Operator.between.Writes operands right := by
  refine ⟨by decide +kernel, ?_⟩
  rintro ⟨operands, right, same, writes⟩
  have both : ¬ ofString " AND " <:+: ofString "Orders.Amount BETWEEN Orders.OrderID" := by
    decide +kernel
  cases writes with
  | nothing check => cases check
  | bounds _ low high =>
    exact both ⟨ofString "Orders.Amount BETWEEN" ++ ofString " " ++ low, high, by simp [same]⟩
  | entries membership => cases membership
  | operand _ range => cases range

end DmlCompiler
