import DmlCompiler.Expression.Fluent
import DmlCompiler.Proofs.Nodes
import DmlCompiler.Proofs.Validity

/-! # Composed expressions

An expression begins with a property of an entity, a wildcard or a group, and is composed further.
However this is done, each of its nodes carries a column of the entity that it names, or none. -/
namespace DmlCompiler.Expression

/-- Composed of properties of entities that are known and of sub-queries that may be nested. -/
inductive Composed (known : Entity → Prop) (nests : SubQuery → Prop) : Expression → Prop where
  | property {e : Entity} {property : String} {x : Expression} (isKnown : known e)
      (found : ofEntity e property = .ok x) : Composed known nests x
  | resolved {registry : Registry} {entity property : String} {x : Expression}
      (isKnown : ∀ e, registry.entity? entity = some e → known e)
      (found : resolve registry entity property = .ok x) : Composed known nests x
  | wildcard : Composed known nests wildcard
  | group : Composed known nests group
  | compareValue {x : Expression} (operator : Operator) (value : SqlValue)
      (hx : Composed known nests x) : Composed known nests (x.compare operator (.value value))
  | compareRange {x : Expression} (operator : Operator) (low high : SqlValue)
      (hx : Composed known nests x) : Composed known nests (x.compare operator (.range low high))
  | membership {x y : Expression} {operator : Operator} {operands : List Operand}
      (hx : Composed known nests x) (may : ∀ q, .subQuery q ∈ operands → nests q)
      (made : x.membership operator operands = .ok y) : Composed known nests y
  | compareProperty {x other : Expression} (operator : Operator) (hx : Composed known nests x)
      (ho : Composed known nests other) : Composed known nests (x.compareProperty operator other)
  | isNull {x : Expression} (hx : Composed known nests x) : Composed known nests x.isNull
  | isNotNull {x : Expression} (hx : Composed known nests x) : Composed known nests x.isNotNull
  | apply {x : Expression} (kind : FunctionKind) (params : List SqlValue)
      (hx : Composed known nests x) : Composed known nests (x.apply kind params)
  | named {x : Expression} (label : String) (hx : Composed known nests x) :
      Composed known nests (x.named label)
  | sorted {x : Expression} (order : SortOrder) (hx : Composed known nests x) :
      Composed known nests (x.sorted order)
  | joinedBy {x : Expression} (connective : Connective) (hx : Composed known nests x) :
      Composed known nests (x.joinedBy connective)
  | not {x : Expression} (hx : Composed known nests x) : Composed known nests x.not
  | and {x other : Expression} (hx : Composed known nests x) (ho : Composed known nests other) :
      Composed known nests (x.and other)
  | or {x other : Expression} (hx : Composed known nests x) (ho : Composed known nests other) :
      Composed known nests (x.or other)

/-- The column of the expression, if it carries one, is that of an entity of the name it has. -/
def StandsFor (known : Entity → Prop) (x : Expression) : Prop :=
  ∀ c ∈ x.column, ∃ e, known e ∧ x.entity = e.name ∧ ∃ column ∈ e.columns, c = e.ref column

variable {known : Entity → Prop} {nests : SubQuery → Prop} {x y z : Expression}

theorem mem_of_ofEntity {e : Entity} {property : String} (h : ofEntity e property = .ok x) :
    ∃ column ∈ e.columns, x = ofColumn e column := by
  unfold ofEntity ofProperty? at h
  cases found : e.column? property with
  | none => simp [found] at h
  | some column =>
    simp only [found, Option.map_some, Except.ok.injEq] at h
    refine ⟨column, ?_, h.symm⟩
    unfold Entity.column? at found
    cases own : e.columns.find? (·.property == property) with
    | some column =>
      rw [own] at found
      cases found
      exact List.mem_of_find?_eq_some own
    | none =>
      rw [own] at found
      exact List.mem_of_find?_eq_some found

/-- A property is resolved to one of the entity that the registry holds. -/
theorem ofEntity_of_resolve {registry : Registry} {entity property : String}
    (h : resolve registry entity property = .ok x) :
    ∃ e, registry.entity? entity = some e ∧ ofEntity e property = .ok x := by
  unfold resolve Registry.entity at h
  cases found : registry.entity? entity with
  | none => simp [found, bind, Except.bind] at h
  | some e =>
    rw [found] at h
    exact ⟨e, rfl, h⟩

/-- A membership that is not refused is a comparison with its operands. -/
theorem eq_of_membership {operator : Operator} {operands : List Operand}
    (h : x.membership operator operands = .ok y) : y = x.compare operator (.list operands) := by
  unfold membership at h
  split at h
  · cases h
  · cases h
    rfl

theorem standsFor_of_ofEntity {e : Entity} {property : String} (isKnown : known e)
    (h : ofEntity e property = .ok x) : x.StandsFor known := by
  obtain ⟨column, mem, rfl⟩ := mem_of_ofEntity h
  rintro _ ⟨⟩
  exact ⟨e, isKnown, rfl, column, mem, rfl⟩

theorem Composed.standsFor (h : x.Composed known nests) : x.StandsFor known := by
  induction h with
  | property isKnown found => exact standsFor_of_ofEntity isKnown found
  | resolved isKnown found =>
    obtain ⟨e, held, found⟩ := ofEntity_of_resolve found
    exact standsFor_of_ofEntity (isKnown e held) found
  | wildcard | group => exact nofun
  | membership hx may made ih =>
    rw [eq_of_membership made]
    exact ih
  | _ => assumption

def ArgumentHolds (holds : Expression → Prop) (nests : SubQuery → Prop) : Argument → Prop
  | .value _ | .range _ _ => True
  | .list operands => ∀ q, .subQuery q ∈ operands → nests q
  | .property other => holds other

structure Inside (holds : Expression → Prop) (nests : SubQuery → Prop) (x : Expression) : Prop where
  argument : ∀ a ∈ x.argument, ArgumentHolds holds nests a
  children : ∀ y ∈ x.children, holds y

/-- What passes from the inside of composed expressions to them holds of all of them. -/
theorem Composed.inside {holds : Expression → Prop}
    (step : ∀ y, y.Composed known nests → y.Inside holds nests → holds y)
    (h : x.Composed known nests) : x.Inside holds nests := by
  induction h with
  | property isKnown found =>
    obtain ⟨column, _, rfl⟩ := mem_of_ofEntity found
    exact ⟨nofun, nofun⟩
  | resolved isKnown found =>
    obtain ⟨e, _, found⟩ := ofEntity_of_resolve found
    obtain ⟨column, _, rfl⟩ := mem_of_ofEntity found
    exact ⟨nofun, nofun⟩
  | wildcard | group => exact ⟨nofun, nofun⟩
  | compareValue operator value hx ih =>
    refine ⟨?_, ih.children⟩
    rintro _ ⟨⟩
    trivial
  | compareRange operator low high hx ih =>
    refine ⟨?_, ih.children⟩
    rintro _ ⟨⟩
    trivial
  | membership hx may made ih =>
    rw [eq_of_membership made]
    refine ⟨?_, ih.children⟩
    rintro _ ⟨⟩
    exact may
  | compareProperty operator hx ho ih ihOther =>
    refine ⟨?_, ih.children⟩
    rintro _ ⟨⟩
    exact step _ ho ihOther
  | isNull hx ih | isNotNull hx ih => exact ⟨nofun, ih.children⟩
  | and hx ho ih ihOther =>
    refine ⟨ih.argument, List.forall_mem_append.2 ⟨ih.children, ?_⟩⟩
    rw [List.forall_mem_singleton]
    exact step _ (ho.joinedBy .and) ⟨ihOther.argument, ihOther.children⟩
  | or hx ho ih ihOther =>
    refine ⟨ih.argument, List.forall_mem_append.2 ⟨ih.children, ?_⟩⟩
    rw [List.forall_mem_singleton]
    exact step _ (ho.joinedBy .or) ⟨ihOther.argument, ihOther.children⟩
  | apply | named | sorted | joinedBy | not =>
    next ih => exact ⟨ih.argument, ih.children⟩

theorem Composed.induct (holds : Expression → Prop)
    (step : ∀ y, y.Composed known nests → y.Inside holds nests → holds y)
    (h : x.Composed known nests) : holds x := step x h (h.inside step)

theorem mem_operandNodes {operands : List Operand} : z ∈ operandNodes operands →
    ∃ q, .subQuery q ∈ operands ∧ z ∈ q.nodes := by
  rw [operandNodes_eq]
  intro mem
  obtain ⟨o, mem, inside⟩ := List.mem_flatMap.1 mem
  cases o with
  | value v => cases inside
  | subQuery q => exact ⟨q, mem, by rwa [Operand.nodes] at inside⟩

theorem mem_operandParts {operands : List Operand} {p : Part} : p ∈ operandParts operands →
    ∃ q, .subQuery q ∈ operands ∧ p ∈ q.parts := by
  rw [operandParts_eq]
  intro mem
  obtain ⟨o, mem, inside⟩ := List.mem_flatMap.1 mem
  cases o with
  | value v => cases inside
  | subQuery q => exact ⟨q, mem, by rwa [Operand.parts] at inside⟩

/-- The nodes of a composed expression stand for columns of entities that are known, but for those
inside of sub-queries. -/
theorem Composed.nodes (h : x.Composed known nests) :
    ∀ z ∈ x.nodes, z.StandsFor known ∨ ∃ q, nests q ∧ z ∈ q.nodes := by
  refine h.induct (fun x => ∀ z ∈ x.nodes, z.StandsFor known ∨ ∃ q, nests q ∧ z ∈ q.nodes) ?_
  rintro x hx ⟨argument, children⟩ z mem
  obtain ⟨_, _, _, _, carried, _, _, _, _, _, below⟩ := x
  rw [Expression.nodes, List.mem_cons, List.mem_append, expressionNodes_eq] at mem
  rcases mem with rfl | mem | mem
  · exact .inl hx.standsFor
  · rcases carried with _ | ⟨_ | _ | operands | other⟩
    · cases mem
    · cases mem
    · cases mem
    · obtain ⟨q, inside, mem⟩ := mem_operandNodes mem
      exact .inr ⟨q, argument _ rfl q inside, mem⟩
    · exact argument _ rfl z mem
  · obtain ⟨y, below, mem⟩ := List.mem_flatMap.1 mem
    exact children y below z mem

theorem Composed.parts (h : x.Composed known nests) : ∀ p ∈ x.parts,
    (∃ e, known e ∧ ∃ column ∈ e.columns, p = .column (e.ref column)) ∨
      ∃ q, nests q ∧ p ∈ q.parts := by
  refine h.induct (fun x => ∀ p ∈ x.parts,
    (∃ e, known e ∧ ∃ column ∈ e.columns, p = .column (e.ref column)) ∨
      ∃ q, nests q ∧ p ∈ q.parts) ?_
  rintro x hx ⟨argument, children⟩ p mem
  obtain ⟨_, _, column, _, carried, _, _, _, _, _, below⟩ := x
  rw [Expression.parts, List.mem_append, List.mem_append, expressionParts_eq] at mem
  rcases mem with (mem | mem) | mem
  · obtain ⟨c, carried, rfl⟩ := List.mem_map.1 mem
    obtain ⟨e, isKnown, _, column, belongs, rfl⟩ := hx.standsFor c (Option.mem_toList.1 carried)
    exact .inl ⟨e, isKnown, column, belongs, rfl⟩
  · rcases carried with _ | ⟨_ | _ | operands | other⟩
    · cases mem
    · cases mem
    · cases mem
    · obtain ⟨q, inside, mem⟩ := mem_operandParts mem
      exact .inr ⟨q, argument _ rfl q inside, mem⟩
    · exact argument _ rfl p mem
  · obtain ⟨y, below, mem⟩ := List.mem_flatMap.1 mem
    exact children y below p mem

/-- Composed of valid entities and valid sub-queries, an expression is valid. -/
theorem Composed.isValid {holds : Command → Prop} {registry : Registry}
    (h : x.Composed known nests) (valid : ∀ e, known e → e.IsValid)
    (inner : ∀ q, nests q → ∀ p ∈ q.parts, p.IsValid holds registry) :
    ∀ p ∈ x.parts, p.IsValid holds registry := by
  intro p mem
  rcases h.parts p mem with ⟨e, isKnown, column, belongs, rfl⟩ | ⟨q, may, inside⟩
  · exact (valid e isKnown).ref belongs
  · exact inner q may p inside

end DmlCompiler.Expression
