import DmlCompiler.Proofs.Parts
import Mathlib.Data.List.Forall2

/-! # Reading records

A record is read as a call by the method's name, the entities of its type arguments and the kinds of
its arguments. What the call is recorded as are the record's own arguments, up to those that are not
looked at; and where the reading fails, it fails for the method of the record. -/
namespace DmlCompiler

def Method.shapes : Method → List (List ArgumentKind)
  | .select | .selectDistinct | .groupBy | .orderBy | .insert => [[.properties]]
  | .selectLimit => [[.limit]]
  | .selectPropertiesLimit => [[.properties, .limit]]
  | .from | .update | .delete | .truncate | .union | .unionAll => [[]]
  | .join => [[.joinType], [.joinType, .predicate]]
  | .filter | .having => [[.predicate]]
  | .values => [[.values]]
  | .valuesRecord => [[.record]]
  | .set => [[.assignment]]

/-- The number of arguments that are looked at. -/
def Method.argumentCount : Method → Nat
  | .from | .update | .delete | .truncate | .union | .unionAll => 0
  | .selectPropertiesLimit | .join => 2
  | _ => 1

namespace RecordedCall

def kinds (c : RecordedCall) : List ArgumentKind := c.arguments.map CallArgument.kind

def trimmed (c : RecordedCall) : RecordedCall :=
  { c with arguments := c.arguments.take c.method.argumentCount }

end RecordedCall

theorem Call.recorded_kinds {call : Call} {record : RecordedCall}
    (recorded : call.recorded? = some record) : record.kinds ∈ record.method.shapes := by
  cases call with
  | paginate page => cases recorded
  | join kind e on =>
    cases recorded
    cases on with
    | none => exact List.mem_cons_self
    | some x => exact List.mem_cons_of_mem _ List.mem_cons_self
  | _ =>
    cases recorded
    exact List.mem_cons_self

theorem Method.length_le_argumentCount {m : Method} {kinds : List ArgumentKind}
    (shaped : kinds ∈ m.shapes) : kinds.length ≤ m.argumentCount := by
  have bounded : ∀ m : Method, ∀ kinds ∈ m.shapes, kinds.length ≤ m.argumentCount := by
    intro m
    cases m <;> decide
  exact bounded m kinds shaped

namespace RecordedCall

variable {c : RecordedCall} {dialect : Dialect} {registry : Registry} {es : List Entity}
  {call : Call} {position : Nat} {expected : ArgumentKind}

theorem argument_eq_ok {α : Type} {read : CallArgument → Option α} (make : α → CallArgument)
    {a : α} (made : ∀ found a, read found = some a → found = make a)
    (h : c.argument position expected read = .ok a) : c.arguments[position]? = some (make a) := by
  unfold argument at h
  split at h
  · cases h
  · next found eq =>
    split at h
    · next read =>
      cases h
      rw [eq, made found a read]
    · cases h

theorem properties_eq_ok {xs : List Expression} (h : c.properties position = .ok xs) :
    c.arguments[position]? = some (.properties xs) :=
  argument_eq_ok _ (by rintro ⟨⟩ _ ⟨⟩; rfl) h

theorem predicate_eq_ok {x : Expression} (h : c.predicate position = .ok x) :
    c.arguments[position]? = some (.predicate x) :=
  argument_eq_ok _ (by rintro ⟨⟩ _ ⟨⟩; rfl) h

theorem optionalPredicate_eq_ok {on : Option Expression}
    (h : c.optionalPredicate position = .ok on) :
    c.arguments[position]? = on.map CallArgument.predicate := by
  unfold optionalPredicate at h
  split at h
  · cases eq : c.predicate position with
    | error e =>
      rw [eq] at h
      cases h
    | ok x =>
      rw [eq] at h
      cases h
      exact predicate_eq_ok eq
  · next beyond =>
    cases h
    exact List.getElem?_eq_none (Nat.le_of_not_lt beyond)

theorem values_eq_ok {row : List SqlValue} (h : c.values position = .ok row) :
    c.arguments[position]? = some (.values row) :=
  argument_eq_ok _ (by rintro ⟨⟩ _ ⟨⟩; rfl) h

theorem record_eq_ok {entries : Record} (h : c.record position = .ok entries) :
    c.arguments[position]? = some (.record entries) :=
  argument_eq_ok _ (by rintro ⟨⟩ _ ⟨⟩; rfl) h

theorem limit_eq_ok {n : UInt64} (h : c.limit position = .ok n) :
    c.arguments[position]? = some (.limit n) :=
  argument_eq_ok _ (by rintro ⟨⟩ _ ⟨⟩; rfl) h

theorem joinKind_eq_ok {kind : JoinKind} (h : c.joinKind position = .ok kind) :
    c.arguments[position]? = some (.joinKind kind) :=
  argument_eq_ok _ (by rintro ⟨⟩ _ ⟨⟩; rfl) h

theorem assignment_eq_ok {x : Expression} {operation : UpdateOperation}
    (h : c.assignment position = .ok (x, operation)) :
    c.arguments[position]? = some (.assignment x operation) :=
  argument_eq_ok (fun a => .assignment a.1 a.2)
    (by rintro ⟨⟩ _ ⟨⟩; rfl) h

theorem entity_eq_ok {e : Entity} (h : c.entity es = .ok e) (count : es.length = 1) :
    es = [e] := by
  obtain ⟨e', rfl⟩ := List.length_eq_one_iff.1 count
  cases h
  rfl

theorem entities_eq_ok : c.entities registry = .ok es ↔
    c.typeArguments.length = c.method.arity ∧
      List.Forall₂ (fun name e => registry.entity? name = some e) c.typeArguments es := by
  unfold entities
  by_cases counted : c.typeArguments.length = c.method.arity
  · rw [if_neg (not_not.2 counted), mapM_eq_ok]
    constructor
    · intro found
      refine ⟨counted, found.imp fun name e read => ?_⟩
      split at read
      · next known =>
        cases read
        exact known
      · cases read
    · rintro ⟨-, known⟩
      refine known.imp fun name e registered => ?_
      rw [registered]
  · rw [if_pos counted]
    simp [fail, counted]

theorem take_one {a : CallArgument} (first : c.arguments[0]? = some a) :
    c.arguments.take 1 = [a] := by
  rw [List.take_one, List.head?_eq_getElem?, first]
  rfl

theorem take_two {a : CallArgument} {rest : Option CallArgument}
    (first : c.arguments[0]? = some a) (second : c.arguments[1]? = rest) :
    c.arguments.take 2 = a :: rest.toList := by
  rw [List.take_add_one, take_one first, second]
  rfl

theorem recorded_eq {m : Method} {types : List String} {arguments taken : List CallArgument}
    (same : arguments.take m.argumentCount = taken) :
    some ⟨m, types, taken⟩ = some (trimmed ⟨m, types, arguments⟩) := by
  rw [← same]
  rfl

/-- A call that is assembled has the record, up to the arguments that are not looked at. -/
theorem recorded_of_assemble (h : c.assemble es = .ok call)
    (named : c.typeArguments = es.map (·.name)) (counted : es.length = c.method.arity) :
    call.recorded? = some c.trimmed := by
  obtain ⟨m, types, arguments⟩ := c
  subst named
  unfold assemble at h
  cases m
  case select | selectDistinct | groupBy | orderBy =>
    obtain ⟨xs, found, eq⟩ := exists_of_bind h
    obtain rfl := List.length_eq_zero_iff.1 counted
    cases eq
    exact recorded_eq (take_one (properties_eq_ok found))
  case selectLimit =>
    obtain ⟨n, found, eq⟩ := exists_of_bind h
    obtain rfl := List.length_eq_zero_iff.1 counted
    cases eq
    exact recorded_eq (take_one (limit_eq_ok found))
  case selectPropertiesLimit =>
    obtain ⟨xs, found, h⟩ := exists_of_bind h
    obtain ⟨n, limited, eq⟩ := exists_of_bind h
    obtain rfl := List.length_eq_zero_iff.1 counted
    cases eq
    exact recorded_eq (take_two (properties_eq_ok found) (limit_eq_ok limited))
  case «from» | update | delete | truncate =>
    obtain ⟨e, known, eq⟩ := exists_of_bind h
    obtain rfl := entity_eq_ok known counted
    cases eq
    rfl
  case join =>
    obtain ⟨kind, found, h⟩ := exists_of_bind h
    obtain ⟨e, known, h⟩ := exists_of_bind h
    obtain ⟨on, tested, eq⟩ := exists_of_bind h
    obtain rfl := entity_eq_ok known counted
    cases eq
    exact recorded_eq (take_two (joinKind_eq_ok found) (optionalPredicate_eq_ok tested))
  case filter | having =>
    obtain ⟨x, found, eq⟩ := exists_of_bind h
    obtain rfl := List.length_eq_zero_iff.1 counted
    cases eq
    exact recorded_eq (take_one (predicate_eq_ok found))
  case insert =>
    obtain ⟨e, known, h⟩ := exists_of_bind h
    obtain ⟨xs, found, eq⟩ := exists_of_bind h
    obtain rfl := entity_eq_ok known counted
    cases eq
    exact recorded_eq (take_one (properties_eq_ok found))
  case values =>
    obtain ⟨row, found, eq⟩ := exists_of_bind h
    obtain rfl := List.length_eq_zero_iff.1 counted
    cases eq
    exact recorded_eq (take_one (values_eq_ok found))
  case valuesRecord =>
    obtain ⟨entries, found, eq⟩ := exists_of_bind h
    obtain rfl := List.length_eq_zero_iff.1 counted
    cases eq
    exact recorded_eq (take_one (record_eq_ok found))
  case set =>
    obtain ⟨⟨x, operation⟩, found, eq⟩ := exists_of_bind h
    obtain rfl := List.length_eq_zero_iff.1 counted
    cases eq
    exact recorded_eq (take_one (assignment_eq_ok found))
  case union | unionAll =>
    obtain rfl := List.length_eq_zero_iff.1 counted
    cases h
    rfl

section Names

variable {types : List String}

theorem names_eq (known : List.Forall₂ (fun name e => registry.entity? name = some e) types es) :
    types = es.map (·.name) := by
  induction known with
  | nil => rfl
  | cons found _ ih => rw [List.map_cons, ← ih, Registry.name_of_entity? found]

theorem registered (known : List.Forall₂ (fun name e => registry.entity? name = some e) types es) :
    ∀ e ∈ es, registry.entity? e.name = some e := by
  induction known with
  | nil => nofun
  | cons found _ ih =>
    rintro e (_ | ⟨_, later⟩)
    · rw [Registry.name_of_entity? found, found]
    · exact ih e later

theorem resolved_of_known
    (known : List.Forall₂ (fun name e => registry.entity? name = some e) types es) :
    ∀ name ∈ types, (registry.entity? name).isSome = true := by
  induction known with
  | nil => nofun
  | cons found _ ih =>
    rintro name (_ | ⟨_, later⟩)
    · rw [found]
      rfl
    · exact ih name later

theorem exists_entities (resolved : ∀ name ∈ types, (registry.entity? name).isSome = true) :
    ∃ es, List.Forall₂ (fun name e => registry.entity? name = some e) types es := by
  induction types with
  | nil => exact ⟨[], .nil⟩
  | cons name types ih =>
    obtain ⟨e, found⟩ := Option.isSome_iff_exists.1 (resolved name List.mem_cons_self)
    obtain ⟨es, later⟩ := ih fun other mem => resolved other (List.mem_cons_of_mem name mem)
    exact ⟨e :: es, .cons found later⟩

end Names

/-- The call of a record has the record, up to the arguments that are not looked at, and names an
entity of the registry. -/
theorem recorded_of_call? (h : c.call? dialect registry = .ok call) :
    call.recorded? = some c.trimmed ∧ ∀ e ∈ call.entity?, registry.entity? e.name = some e := by
  unfold call? at h
  split at h
  · obtain ⟨es, found, assembled⟩ := exists_of_bind h
    obtain ⟨counted, known⟩ := entities_eq_ok.1 found
    have count : es.length = c.method.arity := known.length_eq.symm.trans counted
    refine ⟨recorded_of_assemble assembled (names_eq known) count, fun e named => ?_⟩
    exact registered known e ((covers_of_assemble assembled).entity e named)
  · cases h

theorem exists_of_take_one {a : ArgumentKind} {arguments : List CallArgument}
    (kinds : (arguments.take 1).map CallArgument.kind = [a]) :
    ∃ argument rest, arguments = argument :: rest ∧ argument.kind = a := by
  cases arguments with
  | nil => cases kinds
  | cons argument rest => exact ⟨argument, rest, rfl, (List.cons.inj kinds).1⟩

theorem exists_of_take_two {a b : ArgumentKind} {arguments : List CallArgument}
    (kinds : (arguments.take 2).map CallArgument.kind = [a, b]) :
    ∃ first second rest, arguments = first :: second :: rest ∧ first.kind = a ∧
      second.kind = b := by
  match arguments, kinds with
  | first :: second :: rest, kinds =>
    obtain ⟨kind, later⟩ := List.cons.inj kinds
    exact ⟨first, second, rest, rfl, kind, (List.cons.inj later).1⟩

theorem exists_of_take_two_alone {a : ArgumentKind} {arguments : List CallArgument}
    (kinds : (arguments.take 2).map CallArgument.kind = [a]) :
    ∃ argument, arguments = [argument] := by
  match arguments, kinds with
  | [argument], _ => exact ⟨argument, rfl⟩

theorem exists_assemble (count : es.length = c.method.arity)
    (shaped : c.trimmed.kinds ∈ c.method.shapes) : ∃ call, c.assemble es = .ok call := by
  obtain ⟨m, types, arguments⟩ := c
  cases m
  case union | unionAll => exact ⟨_, rfl⟩
  case «from» | update | delete | truncate =>
    obtain ⟨e, rfl⟩ := List.length_eq_one_iff.1 count
    exact ⟨_, rfl⟩
  case insert =>
    obtain ⟨e, rfl⟩ := List.length_eq_one_iff.1 count
    obtain ⟨argument, rest, rfl, kind⟩ := exists_of_take_one (List.mem_singleton.1 shaped)
    cases argument <;> cases kind
    exact ⟨_, rfl⟩
  case selectPropertiesLimit =>
    obtain ⟨first, second, rest, rfl, kind, later⟩ :=
      exists_of_take_two (List.mem_singleton.1 shaped)
    cases first <;> cases kind
    cases second <;> cases later
    exact ⟨_, rfl⟩
  case join =>
    obtain ⟨e, rfl⟩ := List.length_eq_one_iff.1 count
    rcases List.mem_pair.1 shaped with alone | tested
    · obtain ⟨argument, rfl⟩ := exists_of_take_two_alone alone
      cases argument <;> cases alone
      exact ⟨_, rfl⟩
    · obtain ⟨first, second, rest, rfl, kind, later⟩ := exists_of_take_two tested
      cases first <;> cases kind
      cases second <;> cases later
      exact ⟨_, rfl⟩
  all_goals
    obtain ⟨argument, rest, rfl, kind⟩ := exists_of_take_one (List.mem_singleton.1 shaped)
    cases argument <;> cases kind
    exact ⟨_, rfl⟩

def FailsByMethod {α : Type} (c : RecordedCall) (x : Except QueryError α) : Prop :=
  ∀ e, x = .error e → ∃ cause, e = .methodResolution c.method cause

section Failures

variable {α β : Type} {x : Except QueryError α} {f : α → Except QueryError β}

theorem failsByMethod_ok (a : α) : c.FailsByMethod (.ok a) := nofun

theorem failsByMethod_fail (cause : MethodError) : c.FailsByMethod (c.fail cause : Except _ α) := by
  rintro _ ⟨⟩
  exact ⟨cause, rfl⟩

theorem failsByMethod_bind (hx : c.FailsByMethod x) (hf : ∀ a, c.FailsByMethod (f a)) :
    c.FailsByMethod (x >>= f) := by
  cases x with
  | error e =>
    rintro _ ⟨⟩
    exact hx e rfl
  | ok a => exact hf a

theorem failsByMethod_map {g : α → β} (hx : c.FailsByMethod x) :
    c.FailsByMethod (do return g (← x)) :=
  failsByMethod_bind hx fun a => failsByMethod_ok (g a)

theorem failsByMethod_argument (read : CallArgument → Option α) :
    c.FailsByMethod (c.argument position expected read) := by
  unfold argument
  split
  · exact failsByMethod_fail _
  · split
    · exact failsByMethod_ok _
    · exact failsByMethod_fail _

theorem failsByMethod_optionalPredicate : c.FailsByMethod (c.optionalPredicate position) := by
  unfold optionalPredicate
  split
  · exact failsByMethod_map (failsByMethod_argument _)
  · exact failsByMethod_ok _

theorem failsByMethod_entity (es : List Entity) : c.FailsByMethod (c.entity es) := by
  cases es with
  | nil => exact failsByMethod_fail _
  | cons e _ => exact failsByMethod_ok e

theorem failsByMethod_mapM {g : α → Except QueryError β} (each : ∀ a, c.FailsByMethod (g a)) :
    ∀ as : List α, c.FailsByMethod (as.mapM g)
  | [] => failsByMethod_ok []
  | a :: as => by
    rw [List.mapM_cons]
    exact failsByMethod_bind (each a) fun _ => failsByMethod_map (failsByMethod_mapM each as)

theorem failsByMethod_entities : c.FailsByMethod (c.entities registry) := by
  unfold entities
  split
  · exact failsByMethod_fail _
  · apply failsByMethod_mapM
    intro name
    split
    · exact failsByMethod_ok _
    · exact failsByMethod_fail _

theorem failsByMethod_assemble : c.FailsByMethod (c.assemble es) := by
  unfold assemble
  split
  case h_4 =>
    exact failsByMethod_bind (failsByMethod_argument _) fun _ =>
      failsByMethod_map (failsByMethod_argument _)
  case h_6 =>
    exact failsByMethod_bind (failsByMethod_argument _) fun _ =>
      failsByMethod_bind (failsByMethod_entity es) fun _ =>
        failsByMethod_map failsByMethod_optionalPredicate
  case h_11 =>
    exact failsByMethod_bind (failsByMethod_entity es) fun _ =>
      failsByMethod_map (failsByMethod_argument _)
  case h_5 | h_14 | h_16 | h_17 => exact failsByMethod_map (failsByMethod_entity es)
  case h_18 | h_19 => exact failsByMethod_ok _
  all_goals exact failsByMethod_map (failsByMethod_argument _)

theorem failsByMethod_call? : c.FailsByMethod (c.call? dialect registry) := by
  unfold call?
  split
  · exact failsByMethod_bind failsByMethod_entities fun _ => failsByMethod_assemble
  · exact failsByMethod_fail _

end Failures

end RecordedCall
end DmlCompiler
