import DmlCompiler.Proofs.Build.Mirrors
import DmlCompiler.Proofs.Values
import Mathlib.Tactic.Simps.Basic

/-! # Rendering does not look at values

With its values changed a call does the same to a draft with its values changed: no operation looks
at a value, at the row limit or the page of the draft or at the command that was last finished, which
may change along with the values. -/
namespace DmlCompiler

abbrev Ending := Option UInt64 × Option Page

def Draft.ending (d : Draft) : Ending := (d.rowLimit, d.page)

@[simps]
def Draft.alter (f : SqlValue → SqlValue) (g : Ending → Ending)
    (h : String × Option Page → String × Option Page) (d : Draft) : Draft where
  dialect := d.dialect
  registry := d.registry
  options := d.options
  cache := d.cache
  name := d.name
  sql := d.sql
  parameters := d.parameters.map (·.mapValue f)
  kind := d.kind
  selected := d.selected.map (·.mapValues f)
  clause := d.clause
  listPending := d.listPending
  target := d.target
  insertColumns := d.insertColumns.map (·.mapValues f)
  rowLimit := (g d.ending).1
  page := (g d.ending).2
  whereOpen := d.whereOpen
  havingOpen := d.havingOpen
  lastFinished := h d.lastFinished
  failure := d.failure

/-- Only the ending and what was last finished change if the values stay. -/
theorem Draft.alter_id (d : Draft) (g : Ending → Ending)
    (h : String × Option Page → String × Option Page) :
    d.alter id g h =
      { d with
        rowLimit := (g d.ending).1
        page := (g d.ending).2
        lastFinished := h d.lastFinished } := by
  have parameter : Parameter.mapValue id = id := rfl
  have expressions (xs : List Expression) : xs.map (·.mapValues id) = xs :=
    List.map_id'' Expression.mapValues_id xs
  simp [alter, parameter, expressions]

namespace Build

variable {f : SqlValue → SqlValue} {g : Ending → Ending}
  {h : String × Option Page → String × Option Page}

/-- Sub-queries are compiled on drafts of their own, whose endings stay. -/
theorem Mirrors.inChild {α β : Type} {k : α → β} {x : Build α} {y : Build β}
    (hx : Mirrors (Draft.alter f id id) k x y) :
    Mirrors (Draft.alter f g h) k (inChild x) (inChild y) := by
  intro d
  rw [run_inChild, run_inChild]
  have same : (d.alter f g h).child = d.child.alter f id id := rfl
  rw [same, hx d.child]
  rfl

theorem write_mirrors (sql : Sql) : Mirrors (Draft.alter f g h) id (write sql) (write sql) :=
  mirrors_modify fun _ => rfl

theorem moveTo_mirrors (clause : Clause) :
    Mirrors (Draft.alter f g h) id (moveTo clause) (moveTo clause) :=
  mirrors_modify fun _ => rfl

theorem expect_mirrors (next : Clause) :
    Mirrors (Draft.alter f g h) id (expect next) (expect next) :=
  mirrors_get.bind fun _ => .ite (mirrors_pure ()) (mirrors_throw _)

theorem addParameter_mirrors (v : SqlValue) (type : Option ColumnType) (size : Option UInt32) :
    Mirrors (Draft.alter f g h) id (addParameter v type size) (addParameter (f v) type size) := by
  refine mirrors_get.bind fun d => ?_
  simp only [Draft.alter_options, Draft.alter_parameters, Draft.alter_dialect, List.length_map]
  refine .ite (mirrors_throw_bind _ _ _) ?_
  refine (mirrors_set ?_).bind fun _ => mirrors_pure _
  simp [Draft.alter, Draft.ending, Parameter.mapValue]

theorem bindValue_mirrors (column : Option ColumnRef) (v : SqlValue) :
    Mirrors (Draft.alter f g h) id (bindValue column v) (bindValue column (f v)) :=
  (addParameter_mirrors v _ _).bind fun _ => mirrors_pure _

end Build

open Build

variable {f : SqlValue → SqlValue} {g : Ending → Ending}
  {h : String × Option Page → String × Option Page}

theorem Function.apply_mirrors (function : Function) (inner : Sql) :
    Mirrors (Draft.alter f g h) id (function.apply inner) ((function.mapValues f).apply inner) := by
  refine mirrors_get.bind fun d => ?_
  simp only [Function.mapValues, Function.wholeLength, Draft.alter_dialect, List.length_map]
  refine (mirrors_mapM_same fun v _ => ?_).bind fun params => mirrors_pure _
  exact (bindValue_mirrors none v).bind fun _ => mirrors_pure _

/-- Compiling a sub-query with its values changed gives the command with its values changed. -/
def CompilesAlike (f : SqlValue → SqlValue) (compile : Query → Build Command)
    (compile' : Query → Build Command) : Prop :=
  ∀ q, Mirrors (Draft.alter f id id) (·.mapValues f) (compile q) (compile' (q.mapValues f))

variable {compile compile' : Query → Build Command}

theorem Command.inline_mirrors (c : Command) :
    Mirrors (Draft.alter f g h) id c.inline (c.mapValues f).inline := by
  simp only [Command.inline, Command.mapValues]
  refine .ite (mirrors_throw_bind _ _ _) ?_
  refine (mirrors_mapM_same fun p _ => ?_).bind fun renames => mirrors_pure _
  exact (addParameter_mirrors p.value p.type p.size).bind fun number => mirrors_pure _

theorem SubQuery.inline_mirrors (hc : CompilesAlike f compile compile') (q : SubQuery) :
    Mirrors (Draft.alter f g h) id (q.inline compile) ((q.mapValues f).inline compile') := by
  have finished : Mirrors (Draft.alter f g h) (·.mapValues f) (q.finish compile)
      ((q.mapValues f).finish compile') := by
    cases q with
    | command c => exact mirrors_pure c
    | deferred query => exact (hc query).inChild
  exact finished.bind fun c => c.inline_mirrors

namespace Expression

theorem base_mirrors (x : Expression) :
    Mirrors (Draft.alter f g h) id x.base (x.mapValues f).base := by
  simp only [base, mapValues_isWildcard, mapValues_column, mapValues_entity, mapValues_property]
  refine .ite (mirrors_pure _) ?_
  cases x.column with
  | none => exact mirrors_throw _
  | some column => exact mirrors_pure _

theorem reference_mirrors (x : Expression) :
    Mirrors (Draft.alter f g h) id x.reference (x.mapValues f).reference := by
  simp only [reference, mapValues_functions]
  refine (base_mirrors x).bind fun column => ?_
  exact mirrors_foldlM (fun inner function => function.apply_mirrors inner) _ column

theorem operand_mirrors (hc : CompilesAlike f compile compile') (x : Expression) (alone : Bool)
    (o : Operand) : Mirrors (Draft.alter f g h) id (x.operand compile alone o)
      ((x.mapValues f).operand compile' alone (o.mapValues f)) := by
  cases o with
  | value v =>
    simp only [operand, Operand.mapValues, mapValues_typed]
    exact bindValue_mirrors x.typed v
  | subQuery q => exact (q.inline_mirrors hc).bind fun sql => mirrors_pure _

theorem rightSide_mirrors (hc : CompilesAlike f compile compile') (x : Expression)
    (operator : Operator) : Mirrors (Draft.alter f g h) id (x.rightSide compile operator)
      ((x.mapValues f).rightSide compile' operator) := by
  unfold rightSide
  simp only [mapValues_argument, mapValues_property, mapValues_typed]
  cases x.argument with
  | none => exact mirrors_throw _
  | some argument =>
    cases argument with
    | property other => exact reference_mirrors other
    | range low high =>
      refine .ite ?_ (mirrors_throw _)
      refine (bindValue_mirrors x.typed low).bind fun low => ?_
      exact (bindValue_mirrors x.typed high).bind fun high => mirrors_pure _
    | list operands =>
      simp only [Option.map, Argument.mapValues, mapOperandValues_eq, ne_eq, List.map_eq_nil_iff,
        List.length_map]
      refine .ite ?_ (mirrors_throw _)
      refine (mirrors_mapM_same fun o _ => ?_).bind fun items => mirrors_pure _
      exact operand_mirrors hc x _ o
    | value v => exact .ite (mirrors_throw _) (bindValue_mirrors x.typed v)

theorem condition_mirrors (hc : CompilesAlike f compile compile') (x : Expression) :
    Mirrors (Draft.alter f g h) id (x.condition compile) ((x.mapValues f).condition compile') := by
  unfold condition
  simp only [mapValues_isEmpty, mapValues_operator]
  refine .ite (mirrors_pure _) ?_
  refine (reference_mirrors x).bind fun left => ?_
  cases x.operator with
  | none => exact mirrors_pure _
  | some operator =>
    refine .ite (mirrors_pure _) ?_
    exact (rightSide_mirrors hc x operator).bind fun right => mirrors_pure _

mutual

theorem predicate_mirrors (hc : CompilesAlike f compile compile') :
    ∀ x : Expression, Mirrors (Draft.alter f g h) id (x.predicate compile)
      ((x.mapValues f).predicate compile')
  | ⟨entity, property, column, operator, argument, functions, label, connective, negated, sort,
      children⟩ => by
    rw [predicate_eq, predicate_eq]
    refine (condition_mirrors hc _).bind fun sql => ?_
    refine (appendChildren_mirrors hc children sql).bind fun sql => ?_
    exact mirrors_pure _

theorem appendChildren_mirrors (hc : CompilesAlike f compile compile') :
    ∀ (children : List Expression) (before : Sql), Mirrors (Draft.alter f g h) id
      (appendChildren compile before children)
      (appendChildren compile' before (mapExpressionValues f children))
  | [], before => by
    simp only [mapExpressionValues, appendChildren]
    exact mirrors_pure before
  | child :: rest, before => by
    simp only [mapExpressionValues, appendChildren]
    refine (predicate_mirrors hc child).bind fun sql => ?_
    have same : (child.mapValues f).joined before ((child.mapValues f).grouped sql) =
        child.joined before (child.grouped sql) := by
      simp [joined, grouped]
    simp only [id, same]
    exact appendChildren_mirrors hc rest _

end

theorem checkPermission_mirrors (x : Expression) (kind : StatementKind) :
    Mirrors (Draft.alter f g h) id (x.checkPermission kind)
      ((x.mapValues f).checkPermission kind) := by
  simp only [checkPermission, mapValues_column, mapValues_path]
  cases x.column with
  | none => exact mirrors_pure ()
  | some column => exact .ite (mirrors_pure ()) (mirrors_throw _)

theorem projection_mirrors (hc : CompilesAlike f compile compile') (x : Expression) :
    Mirrors (Draft.alter f g h) id (x.projection compile) ((x.mapValues f).projection compile') := by
  simp only [projection, mapValues_label]
  refine (checkPermission_mirrors x .select).bind fun _ => ?_
  refine (condition_mirrors hc x).bind fun sql => ?_
  cases x.label with
  | none => exact mirrors_pure sql
  | some label =>
    cases eq : Identifier.checkShape label with
    | ok u =>
      simp only [eq]
      exact mirrors_pure _
    | error cause =>
      simp only [eq]
      exact mirrors_throw _

end Expression

end DmlCompiler
