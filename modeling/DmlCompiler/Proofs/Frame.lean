import DmlCompiler.Call
import DmlCompiler.Proofs.Build.Keeps

/-! # Frames

Rendering touches nothing of a draft but its parameters, which grow at the end, and the kept
select lists. -/
namespace DmlCompiler

open Build

namespace Draft

/-- The second draft has further parameters and other select lists, and is else the first one. -/
def Appends (d d' : Draft) : Prop :=
  ∃ parameters cache, d' = { d with parameters := d.parameters ++ parameters, cache := cache }

instance : IsPreorder Draft Appends where
  refl d := ⟨[], d.cache, by simp⟩
  trans := by
    rintro d _ _ ⟨ps, cache, rfl⟩ ⟨qs, cache', rfl⟩
    exact ⟨ps ++ qs, cache', by simp⟩

/-- The drafts are for the same dialect, registry and options, of the same name, and one has
failed as the other one has. -/
structure SameGround (d d' : Draft) : Prop where
  dialect : d'.dialect = d.dialect
  registry : d'.registry = d.registry
  options : d'.options = d.options
  name : d'.name = d.name
  failure : d'.failure = d.failure

instance : IsPreorder Draft SameGround where
  refl _ := ⟨rfl, rfl, rfl, rfl, rfl⟩
  trans _ _ _ h h' := ⟨h'.1.trans h.1, h'.2.trans h.2, h'.3.trans h.3, h'.4.trans h.4,
    h'.5.trans h.5⟩

structure IsFor (dialect : Dialect) (registry : Registry) (d : Draft) : Prop where
  dialect : d.dialect = dialect
  registry : d.registry = registry

theorem SameGround.isFor {d d' : Draft} {dialect : Dialect} {registry : Registry}
    (same : d.SameGround d') (h : d.IsFor dialect registry) : d'.IsFor dialect registry :=
  ⟨same.dialect.trans h.dialect, same.registry.trans h.registry⟩

theorem Appends.sameGround {d d' : Draft} (h : d.Appends d') : d.SameGround d' := by
  obtain ⟨_, _, rfl⟩ := h
  exact ⟨rfl, rfl, rfl, rfl, rfl⟩

end Draft

section Fragments

variable {compile : Query → Build Command}

theorem Build.addParameter_appends (value : SqlValue) (type : Option ColumnType)
    (size : Option UInt32) : Keeps Draft.Appends (addParameter value type size) := by
  intro d number d' given
  rw [addParameter, gives_get_bind] at given
  dsimp only at given
  split at given
  · simp only [gives_bind, gives_throw, false_and, exists_false] at given
  · simp only [gives_bind, gives_set, gives_pure] at given
    obtain ⟨_, _, rfl, rfl, rfl⟩ := given
    exact ⟨_, _, rfl⟩

theorem Build.bindValue_appends (column : Option ColumnRef) (value : SqlValue) :
    Keeps Draft.Appends (bindValue column value) :=
  (addParameter_appends value _ _).bind fun _ => keeps_pure _

theorem Function.apply_appends (f : Function) (inner : Sql) :
    Keeps Draft.Appends (f.apply inner) := by
  refine keeps_get.bind fun d => ?_
  refine (keeps_mapM (fun value => ?_) f.params).bind fun params => keeps_pure _
  exact (bindValue_appends none value).bind fun _ => keeps_pure _

theorem Command.inline_appends (c : Command) : Keeps Draft.Appends c.inline := by
  refine .ite (keeps_throw_bind _ _) ?_
  refine (keeps_mapM (fun p => ?_) c.parameters).bind fun renames => keeps_pure _
  exact (addParameter_appends p.value p.type p.size).bind fun _ => keeps_pure _

theorem SubQuery.inline_appends (q : SubQuery) : Keeps Draft.Appends (q.inline compile) := by
  have finished : Keeps Draft.Appends (q.finish compile) := by
    cases q with
    | command c => exact keeps_pure c
    | deferred query => exact keeps_inChild fun d cache => ⟨[], cache, by simp⟩
  exact finished.bind fun c => c.inline_appends

namespace Expression

theorem base_appends (x : Expression) : Keeps Draft.Appends x.base := by
  refine .ite (keeps_pure _) ?_
  cases x.column with
  | none => exact keeps_throw _
  | some column => exact keeps_pure _

theorem reference_appends (x : Expression) : Keeps Draft.Appends x.reference :=
  (base_appends x).bind fun column =>
    keeps_foldlM (fun inner f => f.apply_appends inner) x.functions column

theorem operand_appends (x : Expression) (alone : Bool) (o : Operand) :
    Keeps Draft.Appends (x.operand compile alone o) := by
  cases o with
  | value v => exact bindValue_appends x.typed v
  | subQuery q => exact q.inline_appends.bind fun sql => keeps_pure _

theorem rightSide_appends (x : Expression) (operator : Operator) :
    Keeps Draft.Appends (x.rightSide compile operator) := by
  unfold rightSide
  cases x.argument with
  | none => exact keeps_throw _
  | some argument =>
    cases argument with
    | property other => exact reference_appends other
    | range low high =>
      refine .ite ?_ (keeps_throw _)
      refine (bindValue_appends x.typed low).bind fun low => ?_
      exact (bindValue_appends x.typed high).bind fun high => keeps_pure _
    | list operands =>
      refine .ite ?_ (keeps_throw _)
      exact (keeps_mapM (fun o => operand_appends x _ o) operands).bind fun _ => keeps_pure _
    | value v => exact .ite (keeps_throw _) (bindValue_appends x.typed v)

theorem condition_appends (x : Expression) : Keeps Draft.Appends (x.condition compile) := by
  refine .ite (keeps_pure _) ?_
  refine (reference_appends x).bind fun left => ?_
  cases x.operator with
  | none => exact keeps_pure _
  | some operator =>
    refine .ite (keeps_pure _) ?_
    exact (rightSide_appends x operator).bind fun right => keeps_pure _

mutual

theorem predicate_appends : ∀ x : Expression, Keeps Draft.Appends (x.predicate compile)
  | ⟨_, _, _, _, _, _, _, _, _, _, children⟩ => by
    rw [predicate_eq]
    refine (condition_appends _).bind fun sql => ?_
    exact (appendChildren_appends children sql).bind fun sql => keeps_pure _

theorem appendChildren_appends :
    ∀ (children : List Expression) (before : Sql),
      Keeps Draft.Appends (appendChildren compile before children)
  | [], before => by
    rw [appendChildren]
    exact keeps_pure before
  | child :: rest, before => by
    rw [appendChildren]
    exact (predicate_appends child).bind fun sql => appendChildren_appends rest _

end

theorem checkPermission_keeps {r : Draft → Draft → Prop} [Std.Refl r] (x : Expression)
    (kind : StatementKind) : Keeps r (x.checkPermission kind) := by
  unfold checkPermission
  cases x.column with
  | none => exact keeps_pure ()
  | some column => exact .ite (keeps_pure ()) (keeps_throw _)

theorem projection_appends (x : Expression) : Keeps Draft.Appends (x.projection compile) := by
  refine (checkPermission_keeps x .select).bind fun _ => ?_
  refine (condition_appends x).bind fun sql => ?_
  cases x.label with
  | none => exact keeps_pure sql
  | some label =>
    cases eq : Identifier.checkShape label with
    | ok u =>
      simp only [eq]
      exact keeps_pure _
    | error cause =>
      simp only [eq]
      exact keeps_throw _

end Expression
end Fragments

section Calls

open Draft

variable {compile : Query → Build Command}

/-- Rendering keeps the surroundings. -/
theorem Build.Keeps.ground {α : Type} {x : Build α} (hx : Keeps Appends x) : Keeps SameGround x :=
  hx.mono fun _ _ => Appends.sameGround

namespace Build

theorem defaultList_appends (e : Entity) : Keeps Appends (defaultList e) := by
  intro d list d' given
  rw [defaultList, gives_get_bind] at given
  split at given
  · simp only [gives_bind, gives_set, gives_pure] at given
    obtain ⟨_, _, rfl, _, rfl⟩ := given
    exact ⟨[], (d.cache.fetch e).2, by rw [List.append_nil]⟩
  · obtain ⟨_, rfl⟩ := gives_pure.1 given
    exact refl _

theorem onClause_appends (kind : JoinKind) (e : Entity) (on : Option Expression) :
    Keeps Appends (onClause compile kind e on) := by
  refine .ite ?_ (keeps_pure [])
  cases on with
  | none => exact keeps_throw _
  | some x => exact x.predicate_appends.bind fun sql => .ite (keeps_throw _) (keeps_pure _)

theorem nonEmptyList_keeps {r : Draft → Draft → Prop} [Std.Refl r] (clause : Clause)
    (list : List Sql) : Keeps r (nonEmptyList clause list) :=
  .ite (keeps_throw _) (keeps_pure _)

theorem sortKey_appends (x : Expression) : Keeps Appends (sortKey x) := by
  refine x.reference_appends.bind fun sql => ?_
  cases x.sort with
  | none => exact keeps_pure _
  | some order => exact keeps_pure _

end Build
end Calls
end DmlCompiler
