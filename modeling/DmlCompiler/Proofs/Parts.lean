import DmlCompiler.Query.Levels
import DmlCompiler.Proofs.Results

/-! # What calls are made of

The columns, finished commands and names of entities inside of an expression or query, down to the
sub-queries of its sub-queries. -/
namespace DmlCompiler

inductive Part where
  | column (column : ColumnRef)
  | command (command : Command)
  /-- The name of an entity, as a recorded call has it. -/
  | entity (name : String)

mutual

def Expression.parts : Expression → List Part
  | ⟨_, _, column, _, argument, _, _, _, _, _, children⟩ =>
    column.toList.map .column ++ argumentParts argument ++ expressionParts children

def expressionParts : List Expression → List Part
  | [] => []
  | x :: xs => x.parts ++ expressionParts xs

def argumentParts : Option Argument → List Part
  | none => []
  | some argument => argument.parts

def Argument.parts : Argument → List Part
  | .value _ | .range _ _ => []
  | .list operands => operandParts operands
  | .property other => other.parts

def operandParts : List Operand → List Part
  | [] => []
  | o :: os => o.parts ++ operandParts os

def Operand.parts : Operand → List Part
  | .value _ => []
  | .subQuery q => q.parts

def SubQuery.parts : SubQuery → List Part
  | .command c => [.command c]
  | .deferred q => q.parts

def Query.parts : Query → List Part
  | ⟨calls, _⟩ => recordedParts calls

def recordedParts : List RecordedCall → List Part
  | [] => []
  | c :: cs => c.parts ++ recordedParts cs

def RecordedCall.parts : RecordedCall → List Part
  | ⟨_, typeArguments, arguments⟩ => typeArguments.map .entity ++ callArgumentParts arguments

def callArgumentParts : List CallArgument → List Part
  | [] => []
  | a :: as => a.parts ++ callArgumentParts as

def CallArgument.parts : CallArgument → List Part
  | .properties xs => expressionParts xs
  | .predicate x | .assignment x _ => x.parts
  | .values _ | .record _ | .limit _ | .joinKind _ => []

end

theorem expressionParts_eq (xs : List Expression) : expressionParts xs = xs.flatMap (·.parts) := by
  induction xs with
  | nil => rfl
  | cons x xs ih => rw [expressionParts, ih, List.flatMap_cons]

theorem operandParts_eq (os : List Operand) : operandParts os = os.flatMap (·.parts) := by
  induction os with
  | nil => rfl
  | cons o os ih => rw [operandParts, ih, List.flatMap_cons]

theorem recordedParts_eq (cs : List RecordedCall) : recordedParts cs = cs.flatMap (·.parts) := by
  induction cs with
  | nil => rfl
  | cons c cs ih => rw [recordedParts, ih, List.flatMap_cons]

theorem callArgumentParts_eq (as : List CallArgument) :
    callArgumentParts as = as.flatMap (·.parts) := by
  induction as with
  | nil => rfl
  | cons a as ih => rw [callArgumentParts, ih, List.flatMap_cons]

theorem Registry.name_of_entity? {r : Registry} {name : String} {e : Entity}
    (found : r.entity? name = some e) : e.name = name := by
  simpa using List.find?_some found

namespace Expression

theorem column_mem_parts {x : Expression} {c : ColumnRef} (h : x.column = some c) :
    Part.column c ∈ x.parts := by
  obtain ⟨_, _, column, _, _, _, _, _, _, _, _⟩ := x
  cases h
  simp [parts]

theorem argument_parts {x : Expression} {a : Argument} (h : x.argument = some a) :
    ∀ p ∈ a.parts, p ∈ x.parts := by
  obtain ⟨_, _, _, _, argument, _, _, _, _, _, _⟩ := x
  cases h
  intro p hp
  simp [parts, argumentParts, hp]

theorem children_parts {x y : Expression} (h : y ∈ x.children) : ∀ p ∈ y.parts, p ∈ x.parts := by
  obtain ⟨_, _, _, _, _, _, _, _, _, _, children⟩ := x
  intro p hp
  have found : p ∈ children.flatMap (·.parts) := List.mem_flatMap.2 ⟨y, h, hp⟩
  rw [parts, expressionParts_eq]
  exact List.mem_append_right _ found

end Expression

namespace Call

def entity? : Call → Option Entity
  | .from e | .join _ e _ | .insert e _ | .update e | .delete e | .truncate e => some e
  | _ => none

def expressions : Call → List Expression
  | .select xs | .selectDistinct xs | .selectPropertiesLimit xs _ | .groupBy xs | .orderBy xs
  | .insert _ xs => xs
  | .join _ _ on => on.toList
  | .filter x | .having x | .set x _ => [x]
  | _ => []

def limit? : Call → Option UInt64
  | .selectLimit limit | .selectPropertiesLimit _ limit => some limit
  | _ => none

def page? : Call → Option Page
  | .paginate page => some page
  | _ => none

end Call

def CallArgument.expressions : CallArgument → List Expression
  | .properties xs => xs
  | .predicate x | .assignment x _ => [x]
  | .values _ | .record _ | .limit _ | .joinKind _ => []

theorem CallArgument.parts_eq (a : CallArgument) : a.parts = a.expressions.flatMap (·.parts) := by
  cases a with
  | properties xs => exact expressionParts_eq xs
  | predicate x => exact (List.append_nil _).symm
  | assignment x operation => exact (List.append_nil _).symm
  | _ => rfl

namespace RecordedCall

def expressions (c : RecordedCall) : List Expression := c.arguments.flatMap (·.expressions)

theorem parts_eq (c : RecordedCall) :
    c.parts = c.typeArguments.map .entity ++ c.expressions.flatMap (·.parts) := by
  cases c
  simp only [parts, callArgumentParts_eq, CallArgument.parts_eq, expressions, List.flatMap_assoc]

theorem expression_parts {c : RecordedCall} {x : Expression} (h : x ∈ c.expressions) :
    ∀ p ∈ x.parts, p ∈ c.parts := by
  intro p hp
  rw [parts_eq]
  exact List.mem_append_right _ (List.mem_flatMap.2 ⟨x, h, hp⟩)

section Readers

variable {c : RecordedCall} {position : Nat}

theorem properties_expressions {xs : List Expression} (h : c.properties position = .ok xs) :
    ∀ x ∈ xs, x ∈ c.expressions := by
  obtain ⟨found, mem, eq⟩ := mem_of_argument h
  split at eq
  · cases eq
    intro x hx
    exact List.mem_flatMap.2 ⟨_, mem, hx⟩
  · cases eq

theorem predicate_expressions {x : Expression} (h : c.predicate position = .ok x) :
    x ∈ c.expressions := by
  obtain ⟨found, mem, eq⟩ := mem_of_argument h
  split at eq
  · cases eq
    exact List.mem_flatMap.2 ⟨_, mem, List.mem_singleton_self x⟩
  · cases eq

theorem optionalPredicate_expressions {on : Option Expression}
    (h : c.optionalPredicate position = .ok on) : ∀ x ∈ on.toList, x ∈ c.expressions := by
  unfold optionalPredicate at h
  split at h
  · cases eq : c.predicate position with
    | error e => simp [eq, Except.map] at h
    | ok y =>
      rw [eq] at h
      cases h
      intro x hx
      rw [Option.toList_some, List.mem_singleton] at hx
      subst hx
      exact predicate_expressions eq
  · cases h
    simp

theorem assignment_expressions {x : Expression} {operation : UpdateOperation}
    (h : c.assignment position = .ok (x, operation)) : x ∈ c.expressions := by
  obtain ⟨found, mem, eq⟩ := mem_of_argument h
  split at eq
  · cases eq
    exact List.mem_flatMap.2 ⟨_, mem, List.mem_singleton_self x⟩
  · cases eq

theorem mem_of_entity {entities : List Entity} {e : Entity} (h : c.entity entities = .ok e) :
    e ∈ entities := by
  cases entities with
  | nil => cases h
  | cons e' rest =>
    cases h
    exact List.mem_cons_self

end Readers

structure Covers (c : RecordedCall) (entities : List Entity) (call : Call) : Prop where
  expressions : ∀ x ∈ call.expressions, x ∈ c.expressions
  entity : ∀ e ∈ call.entity?, e ∈ entities

theorem covers_of_assemble {c : RecordedCall} {entities : List Entity} {call : Call}
    (h : c.assemble entities = .ok call) : c.Covers entities call := by
  unfold assemble at h
  split at h
  case h_1 | h_2 | h_8 | h_10 =>
    obtain ⟨xs, found, eq⟩ := exists_of_bind h
    cases eq
    exact ⟨properties_expressions found, nofun⟩
  case h_4 =>
    obtain ⟨xs, found, h⟩ := exists_of_bind h
    obtain ⟨limit, _, eq⟩ := exists_of_bind h
    cases eq
    exact ⟨properties_expressions found, nofun⟩
  case h_6 =>
    obtain ⟨kind, _, h⟩ := exists_of_bind h
    obtain ⟨e, known, h⟩ := exists_of_bind h
    obtain ⟨on, found, eq⟩ := exists_of_bind h
    cases eq
    refine ⟨optionalPredicate_expressions found, ?_⟩
    rintro _ ⟨⟩
    exact mem_of_entity known
  case h_7 | h_9 =>
    obtain ⟨x, found, eq⟩ := exists_of_bind h
    cases eq
    refine ⟨?_, nofun⟩
    intro y hy
    cases List.mem_singleton.1 hy
    exact predicate_expressions found
  case h_11 =>
    obtain ⟨e, known, h⟩ := exists_of_bind h
    obtain ⟨xs, found, eq⟩ := exists_of_bind h
    cases eq
    refine ⟨properties_expressions found, ?_⟩
    rintro _ ⟨⟩
    exact mem_of_entity known
  case h_15 =>
    obtain ⟨⟨x, operation⟩, found, eq⟩ := exists_of_bind h
    cases eq
    refine ⟨?_, nofun⟩
    intro y hy
    cases List.mem_singleton.1 hy
    exact assignment_expressions found
  case h_5 | h_14 | h_16 | h_17 =>
    obtain ⟨e, known, eq⟩ := exists_of_bind h
    cases eq
    refine ⟨nofun, ?_⟩
    rintro _ ⟨⟩
    exact mem_of_entity known
  case h_18 | h_19 =>
    cases h
    exact ⟨nofun, nofun⟩
  all_goals
    obtain ⟨a, _, eq⟩ := exists_of_bind h
    cases eq
    exact ⟨nofun, nofun⟩

/-- The entity of a call is one that the registry has under a name in the record. -/
theorem covers_of_call? {c : RecordedCall} {d : Dialect} {r : Registry} {call : Call}
    (h : c.call? d r = .ok call) :
    (∀ x ∈ call.expressions, x ∈ c.expressions) ∧
    ∀ e ∈ call.entity?, ∃ name, .entity name ∈ c.parts ∧ r.entity? name = some e := by
  unfold call? at h
  split at h
  · obtain ⟨entities, found, assembled⟩ := exists_of_bind h
    obtain ⟨expressions, entity⟩ := covers_of_assemble assembled
    refine ⟨expressions, fun e he => ?_⟩
    unfold RecordedCall.entities at found
    split at found
    · cases found
    · obtain ⟨name, hname, eq⟩ := mem_of_mapM found e (entity e he)
      refine ⟨name, ?_, ?_⟩
      · rw [parts_eq]
        exact List.mem_append_left _ (List.mem_map_of_mem hname)
      · split at eq
        · next known =>
          cases eq
          exact known
        · cases eq
  · cases h

end RecordedCall
end DmlCompiler
