import DmlCompiler.Proofs.Build.Yields
import DmlCompiler.Proofs.Names.Vocabulary

/-! # What expressions name

Over a vocabulary that covers its nodes, an expression among them is spelled in it, whatever draft it
is rendered on, if the compiler of sub-queries spells theirs. -/
namespace DmlCompiler

open Build Sql Vocabulary

structure Draft.SpeltIn (V : Vocabulary) (d : Draft) : Prop where
  dialect : d.dialect = V.dialect
  registry : d.registry = V.registry
  cache : ∀ entry ∈ d.cache, V.Spells (ofString entry.2)
  sql : V.Spells d.sql

variable {V : Vocabulary} {compile : Query → Build Command}

/-- The compiler gives the commands of those queries among the sub-queries whose nodes the
vocabulary has. -/
def Vocabulary.Handles (V : Vocabulary) (compile : Query → Build Command) (qs : List SubQuery) :
    Prop :=
  ∀ q, .deferred q ∈ qs → (∀ x ∈ q.nodes, x ∈ V.nodes) →
    Yields (Draft.SpeltIn V) (V.Expresses q) (compile q)

structure Expression.Within (V : Vocabulary) (compile : Query → Build Command) (x : Expression) :
    Prop where
  nodes : ∀ y ∈ x.nodes, y ∈ V.nodes
  handled : V.Handles compile x.subQueries

namespace Build

theorem addParameter_spelt (value : SqlValue) (type : Option ColumnType) (size : Option UInt32) :
    Preserves (Draft.SpeltIn V) (addParameter value type size) := by
  refine yields_get.bind fun d hd => .ite (fun _ => yields_throw_bind _ _) fun _ => ?_
  refine (yields_set ⟨hd.dialect, hd.registry, hd.cache, hd.sql⟩).then fun _ => ?_
  exact yields_pure trivial

theorem bindValue_spells (column : Option ColumnRef) (value : SqlValue) :
    Yields (Draft.SpeltIn V) V.Spells (bindValue column value) :=
  (addParameter_spelt value _ _).then fun number => yields_pure (.place number)

end Build

namespace Function

theorem wholeLength_spells (f : Function) (dialect : Dialect) {inner : Sql} (h : V.Spells inner) :
    V.Spells (f.wholeLength dialect inner) := by
  unfold wholeLength
  split
  · next length eq =>
    split
    · unfold Dialect.wholeLength? at eq
      split at eq
      · cases eq
        have whole := Spells.append (spells_common (by decide : "LEN(" ∈ commonWords)) h
        exact .append (.word (.separator f.kind)) (.append whole (spells_common (by decide)))
      · cases eq
    · exact .nil
  · exact .nil

theorem apply_spells (f : Function) {inner : Sql} (h : V.Spells inner) :
    Yields (Draft.SpeltIn V) V.Spells (f.apply inner) := by
  refine yields_get.bind fun d hd => ?_
  have each : ∀ value ∈ f.params, Yields (Draft.SpeltIn V) V.Spells
      (do return ofString f.kind.separator ++ (← bindValue none value)) := fun value _ =>
    (bindValue_spells none value).bind fun place spelled =>
      yields_pure (.append (.word (.separator f.kind)) spelled)
  refine (yields_mapM each).bind fun params spelled => yields_pure ?_
  have opening : V.Spells (ofString (d.dialect.opening f.kind)) := by
    rw [hd.dialect]
    exact .word (.opening f.kind)
  have arguments := Spells.append (Spells.append opening h) (spells_flatten spelled)
  exact .append (.append arguments (f.wholeLength_spells d.dialect h)) (spells_closing _)

theorem apply_infix {f : Function} {part inner sql : Sql} {d d' : Draft} (h : part <:+: inner)
    (given : Gives (f.apply inner) d sql d') : part <:+: sql := by
  rw [Function.apply, gives_get_bind] at given
  obtain ⟨params, d₁, _, given⟩ := gives_bind.1 given
  obtain ⟨rfl, rfl⟩ := gives_pure.1 given
  simp only [List.append_assoc]
  exact h.trans (List.infix_append' _ _ _)

end Function

/-- Whatever its parameters are renamed to, the inlined text is spelled. -/
theorem Command.inline_spells {c : Command}
    (h : ∀ renames, V.Spells (ofFinished renames c.sql)) :
    Yields (Draft.SpeltIn V) V.Spells c.inline := by
  refine .ite (fun _ => yields_throw_bind _ _) fun _ => ?_
  have each : ∀ p ∈ c.parameters, Preserves (Draft.SpeltIn V)
      (do return (p.name, ← addParameter p.value p.type p.size)) := fun p _ =>
    (addParameter_spelt p.value p.type p.size).then fun _ => yields_pure trivial
  exact (yields_mapM each).bind fun renames _ => yields_pure (h renames)

namespace Expression

variable {x : Expression}

theorem subQuery_spells (within : x.Within V compile) {operands : List Operand} {q : SubQuery}
    (h : x.argument = some (.list operands)) (mem : .subQuery q ∈ operands) :
    Yields (Draft.SpeltIn V) V.Spells (q.inline compile) := by
  have node := within.nodes x x.self_mem_nodes
  have inside := operand_subQueries h mem
  cases q with
  | command c => exact Command.inline_spells fun renames => .finished node inside renames
  | deferred query =>
    have handled : Yields (Draft.SpeltIn V) (V.Expresses query) (compile query) :=
      within.handled query inside fun y hy => within.nodes y (operand_nodes h mem hy)
    have inner : Yields (Draft.SpeltIn V) (V.Expresses query) (inChild (compile query)) := by
      intro d c d' hd given
      obtain ⟨child, compiled, rfl⟩ := gives_inChild.1 given
      have fresh : d.child.SpeltIn V := ⟨hd.dialect, hd.registry, hd.cache, .nil⟩
      obtain ⟨spelt, expressed⟩ := handled fresh compiled
      exact ⟨⟨hd.dialect, hd.registry, spelt.cache, hd.sql⟩, expressed⟩
    refine inner.bind fun c expressed => Command.inline_spells fun renames => ?_
    obtain ⟨sql, eq, spelled⟩ := expressed.spelled
    rw [eq]
    exact .recorded node inside expressed.permitted spelled renames

section Reference

variable (hV : V.Covers) (node : x ∈ V.nodes)
include hV node

theorem base_spells : Yields (Draft.SpeltIn V) V.Spells x.base := by
  refine .ite (fun _ => yields_pure (spells_common (by decide))) fun _ => ?_
  split
  · next column eq => exact yields_pure (hV.reference node eq)
  · exact yields_throw _

theorem reference_spells : Yields (Draft.SpeltIn V) V.Spells x.reference :=
  (base_spells hV node).bind fun _ spelled =>
    yields_foldlM (fun _ f spelled => f.apply_spells spelled) x.functions spelled

end Reference

theorem reference_names (hV : V.Covers) (node : x ∈ V.nodes) (column : x.isWildcard = false)
    {sql : Sql} {d d' : Draft} (given : Gives x.reference d sql d') :
    ∃ known, V.stands x known ∧ ofString known.sql <:+: sql := by
  obtain ⟨inner, d₁, first, wrapped⟩ := gives_bind.1 given
  rw [base, if_neg (by simp [column])] at first
  split at first
  · next c carried =>
    obtain ⟨rfl, rfl⟩ := gives_pure.1 first
    obtain ⟨known, stands, agrees⟩ := hV x node c carried
    refine ⟨known, stands, ?_⟩
    rw [← agrees.sql]
    have inside : ∀ (inner : Sql) (f : Function), ofString c.sql <:+: inner →
        Yields (fun _ => True) (ofString c.sql <:+: ·) (f.apply inner) :=
      fun _ f h _ _ _ _ given => ⟨trivial, Function.apply_infix h given⟩
    exact (yields_foldlM inside x.functions List.infix_rfl trivial wrapped).2
  · exact (gives_throw.1 first).elim

section Condition

variable (hV : V.Covers) (within : x.Within V compile)
include within

theorem operand_spells (alone : Bool) {operands : List Operand} {o : Operand}
    (h : x.argument = some (.list operands)) (mem : o ∈ operands) :
    Yields (Draft.SpeltIn V) V.Spells (x.operand compile alone o) := by
  cases o with
  | value v => exact bindValue_spells x.typed v
  | subQuery q =>
    refine (subQuery_spells within h mem).bind fun sql spelled => ?_
    cases alone with
    | true => exact yields_pure spelled
    | false => exact yields_pure spelled.parenthesize

include hV

theorem rightSide_spells (operator : Operator) :
    Yields (Draft.SpeltIn V) V.Spells (x.rightSide compile operator) := by
  unfold rightSide
  split
  · next other eq =>
    refine reference_spells hV (within.nodes other (argument_nodes eq ?_))
    rw [Argument.nodes]
    exact other.self_mem_nodes
  · next low high eq =>
    refine .ite (fun _ => ?_) fun _ => yields_throw _
    refine (bindValue_spells x.typed low).bind fun _ isLow => ?_
    refine (bindValue_spells x.typed high).bind fun _ isHigh => yields_pure ?_
    exact .append (.append isLow (spells_common (by decide))) isHigh
  · next operands eq =>
    refine .ite (fun _ => ?_) fun _ => yields_throw _
    have each : ∀ o ∈ operands, Yields (Draft.SpeltIn V) V.Spells
        (x.operand compile (operands.length == 1) o) := fun o ho =>
      operand_spells within _ eq ho
    exact (yields_mapM each).bind fun items spelled =>
      yields_pure (spells_list spelled).parenthesize
  · next value eq =>
    exact .ite (fun _ => yields_throw _) fun _ => bindValue_spells x.typed value
  · exact yields_throw _

theorem condition_spells : Yields (Draft.SpeltIn V) V.Spells (x.condition compile) := by
  refine .ite (fun _ => yields_pure .nil) fun _ => ?_
  refine (reference_spells hV (within.nodes x x.self_mem_nodes)).bind fun left isLeft => ?_
  split
  · exact yields_pure isLeft
  · next operator eq =>
    have head := Spells.append isLeft (.word (.operator operator))
    refine .ite (fun _ => yields_pure head) fun _ => ?_
    refine (rightSide_spells hV within operator).bind fun right isRight => yields_pure ?_
    exact .append (.append head (spells_common (by decide))) isRight

end Condition

theorem grouped_spells {sql : Sql} (h : V.Spells sql) : V.Spells (x.grouped sql) := by
  unfold grouped
  split
  · exact h
  · exact h.parenthesize

theorem joined_spells {before sql : Sql} (hb : V.Spells before) (h : V.Spells sql) :
    V.Spells (x.joined before sql) := by
  unfold joined
  split
  · exact hb
  · split
    · exact h
    · exact .append (.append hb (.word (.connective _))) h

theorem Within.child {y : Expression} (h : x.Within V compile) (hy : y ∈ x.children) :
    y.Within V compile where
  nodes z hz := h.nodes z (children_nodes hy hz)
  handled q mem := h.handled q (children_subQueries hy mem)

mutual

theorem predicate_spells (hV : V.Covers) : ∀ {x : Expression}, x.Within V compile →
    Yields (Draft.SpeltIn V) V.Spells (x.predicate compile)
  | ⟨a, b, c, o, e, f, g, h, negated, i, children⟩, within => by
    rw [predicate_eq]
    refine (condition_spells hV within).bind fun own spelled => ?_
    refine (appendChildren_spells hV (fun y hy => within.child hy) spelled).bind ?_
    refine fun sql spelled => yields_pure ?_
    split
    · exact .append (spells_common (by decide)) spelled.parenthesize
    · exact spelled

theorem appendChildren_spells (hV : V.Covers) :
    ∀ {children : List Expression} {before : Sql}, (∀ x ∈ children, x.Within V compile) →
      V.Spells before →
      Yields (Draft.SpeltIn V) V.Spells (appendChildren compile before children)
  | [], before, within, spelled => by
    rw [appendChildren]
    exact yields_pure spelled
  | child :: rest, before, within, spelled => by
    rw [appendChildren]
    refine (predicate_spells hV (within child List.mem_cons_self)).bind fun sql own => ?_
    exact appendChildren_spells hV (fun x hx => within x (List.mem_cons_of_mem child hx))
      (joined_spells spelled (grouped_spells own))

end

end Expression

end DmlCompiler
