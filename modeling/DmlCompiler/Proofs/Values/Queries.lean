import DmlCompiler.Proofs.Values.Calls

/-! # Queries with other values

A recorded call with other values is read as the call with these values, so that a query compiles
to the command with these values: `compilesAlike`. -/
namespace DmlCompiler

open Build

variable {f : SqlValue → SqlValue} {h : String × Option Page → String × Option Page}

theorem exceptMap_bind {ε α β γ δ : Type} {k : α → β} {l : γ → δ} {x : Except ε α}
    {s : α → Except ε γ} {t : β → Except ε δ} (h : ∀ a, t (k a) = (s a).map l) :
    x.map k >>= t = (x >>= s).map l := by
  cases x with
  | error e => rfl
  | ok a => exact h a

namespace RecordedCall

@[simp] theorem mapValues_method (c : RecordedCall) : (c.mapValues f).method = c.method := by
  cases c
  rw [mapValues]

@[simp] theorem mapValues_typeArguments (c : RecordedCall) :
    (c.mapValues f).typeArguments = c.typeArguments := by
  cases c
  rw [mapValues]

@[simp] theorem mapValues_arguments (c : RecordedCall) :
    (c.mapValues f).arguments = c.arguments.map (·.mapValues f) := by
  cases c
  rw [mapValues, mapCallArgumentValues_eq]

theorem kind_mapValues (a : CallArgument) : (a.mapValues f).kind = a.kind := by
  cases a <;> simp only [CallArgument.mapValues, CallArgument.kind]

theorem fail_mapValues {α β : Type} {k : α → β} (c : RecordedCall) (cause : MethodError) :
    (c.mapValues f).fail cause = (c.fail cause).map k := by
  simp [fail, Except.map]

/-- What is read from an argument changes with its values, and the errors do not. -/
theorem argument_mapValues {α β : Type} {k : α → β} {read : CallArgument → Option α}
    {read' : CallArgument → Option β} (h : ∀ a, read' (a.mapValues f) = (read a).map k)
    (c : RecordedCall) (position : Nat) (expected : ArgumentKind) :
    (c.mapValues f).argument position expected read' =
      (c.argument position expected read).map k := by
  simp only [argument, mapValues_arguments, List.getElem?_map]
  cases c.arguments[position]? with
  | none => exact fail_mapValues c _
  | some found =>
    simp only [Option.map_some, h found, kind_mapValues]
    cases read found with
    | none => exact fail_mapValues c _
    | some a => rfl

variable (c : RecordedCall) (position : Nat)

theorem properties_mapValues :
    (c.mapValues f).properties position =
      (c.properties position).map (List.map (·.mapValues f)) := by
  refine argument_mapValues (fun a => ?_) c position _
  cases a <;> simp [CallArgument.mapValues, mapExpressionValues_eq]

theorem predicate_mapValues :
    (c.mapValues f).predicate position = (c.predicate position).map (·.mapValues f) := by
  refine argument_mapValues (fun a => ?_) c position _
  cases a <;> simp [CallArgument.mapValues]

theorem optionalPredicate_mapValues :
    (c.mapValues f).optionalPredicate position =
      (c.optionalPredicate position).map (Option.map (·.mapValues f)) := by
  simp only [optionalPredicate, mapValues_arguments, List.length_map, predicate_mapValues]
  split
  · cases c.predicate position <;> rfl
  · rfl

theorem values_mapValues :
    (c.mapValues f).values position = (c.values position).map (List.map f) := by
  refine argument_mapValues (fun a => ?_) c position _
  cases a <;> simp [CallArgument.mapValues]

theorem record_mapValues :
    (c.mapValues f).record position = (c.record position).map (·.mapValues f) := by
  refine argument_mapValues (fun a => ?_) c position _
  cases a <;> simp [CallArgument.mapValues]

theorem limit_mapValues : (c.mapValues f).limit position = (c.limit position).map id := by
  refine argument_mapValues (fun a => ?_) c position _
  cases a <;> simp [CallArgument.mapValues]

theorem joinKind_mapValues :
    (c.mapValues f).joinKind position = (c.joinKind position).map id := by
  refine argument_mapValues (fun a => ?_) c position _
  cases a <;> simp [CallArgument.mapValues]

theorem assignment_mapValues :
    (c.mapValues f).assignment position =
      (c.assignment position).map (Prod.map (·.mapValues f) (·.mapValues f)) := by
  refine argument_mapValues (fun a => ?_) c position _
  cases a <;> simp [CallArgument.mapValues]

theorem entity_mapValues (entities : List Entity) :
    (c.mapValues f).entity entities = (c.entity entities).map id := by
  cases entities with
  | nil => exact fail_mapValues c _
  | cons e _ => rfl

theorem entities_mapValues (r : Registry) : (c.mapValues f).entities r = c.entities r := by
  simp only [entities, fail, mapValues_typeArguments, mapValues_method]

theorem assemble_mapValues (entities : List Entity) :
    (c.mapValues f).assemble entities = (c.assemble entities).map (·.mapValues f) := by
  unfold assemble
  simp only [mapValues_method, properties_mapValues, predicate_mapValues,
    optionalPredicate_mapValues, values_mapValues, record_mapValues, limit_mapValues,
    joinKind_mapValues, assignment_mapValues, entity_mapValues]
  cases c.method <;> try exact exceptMap_bind fun _ => rfl
  case selectPropertiesLimit =>
    exact exceptMap_bind fun _ => exceptMap_bind fun _ => rfl
  case join =>
    exact exceptMap_bind fun _ => exceptMap_bind fun _ => exceptMap_bind fun _ => rfl
  case insert => exact exceptMap_bind fun _ => exceptMap_bind fun _ => rfl
  all_goals rfl

theorem call?_mapValues (d : Dialect) (r : Registry) :
    (c.mapValues f).call? d r = (c.call? d r).map (·.mapValues f) := by
  simp only [call?, mapValues_method, entities_mapValues]
  split
  · cases c.entities r with
    | error e => rfl
    | ok entities => exact assemble_mapValues c entities
  · exact fail_mapValues c _

theorem replay_mirrors {compile compile' : Query → Build Command}
    (hc : CompilesAlike f compile compile') :
    Mirrors (Draft.alter f id h) id (c.replay compile) ((c.mapValues f).replay compile') := by
  refine mirrors_get.bind fun d => ?_
  simp only [Draft.alter_dialect, Draft.alter_registry, call?_mapValues]
  cases c.call? d.dialect d.registry with
  | error e => exact mirrors_throw e
  | ok call =>
    exact (call.make_mirrors hc call.ends_id).guarded (fun _ => rfl) fun _ _ => rfl

end RecordedCall

theorem Draft.finished_alter (d : Draft) :
    (d.alter f id h).finished = d.finished.map (·.mapValues f) := by
  unfold Draft.finished
  simp only [Draft.alter_clause, Draft.alter_rowLimit, Draft.alter_page, Draft.alter_kind,
    Draft.ending, id]
  split
  · rfl
  split
  · rfl
  split
  · rfl
  · rfl

theorem Build.finish_mirrors : Mirrors (Draft.alter f id h) (·.mapValues f) finish finish := by
  refine Mirrors.guarded ?_ (fun _ => rfl) fun _ _ => rfl
  refine mirrors_get.bind fun d => ?_
  rw [Draft.finished_alter]
  cases d.finished with
  | error e => exact mirrors_throw e
  | ok command => exact mirrors_pure command

namespace Query

theorem replay_mirrors {compile compile' : Query → Build Command}
    (hc : CompilesAlike f compile compile') (q : Query) :
    Mirrors (Draft.alter f id h) id (q.replay compile) ((q.mapValues f).replay compile') := by
  obtain ⟨calls, page⟩ := q
  simp only [mapValues, mapCallValues_eq]
  have paged : Mirrors (Draft.alter f id h) id (setPage compile ⟨calls, page⟩)
      (setPage compile' ⟨calls.map (·.mapValues f), page⟩) := by
    cases page with
    | none => exact mirrors_pure ()
    | some page =>
      exact ((Call.paginate page).make_mirrors hc (Call.ends_id _)).guarded (fun _ => rfl)
        fun _ _ => rfl
  exact paged.bind fun _ => mirrors_forM fun c _ => c.replay_mirrors hc

theorem compileWithin_mirrors (levels : Nat) :
    CompilesAlike f (compileWithin levels) (compileWithin levels) := by
  induction levels with
  | zero => exact fun _ => finish_mirrors
  | succ levels ih => exact fun q => (replay_mirrors ih q).bind fun _ => finish_mirrors

theorem compilesAlike : CompilesAlike f compile compile := by
  intro q
  have enough : q.depth < max q.depth (q.mapValues f).depth + 1 := by omega
  have enough' : (q.mapValues f).depth < max q.depth (q.mapValues f).depth + 1 := by omega
  rw [compile, compile, compileWithin_eq _ _ q (Nat.lt_succ_self _) enough,
    compileWithin_eq _ _ (q.mapValues f) (Nat.lt_succ_self _) enough']
  exact compileWithin_mirrors _ q

end Query
end DmlCompiler
