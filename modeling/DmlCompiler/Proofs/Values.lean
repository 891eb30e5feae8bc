import DmlCompiler.Call

/-! # Changing values

A function of values is applied to every value that a call carries: those compared with, those of
functions and rows, and those inside of sub-queries of both kinds. Nothing else changes. -/
namespace DmlCompiler

variable (f : SqlValue → SqlValue)

def Function.mapValues (function : Function) : Function :=
  { function with params := function.params.map f }

def UpdateOperation.mapValues : UpdateOperation → UpdateOperation
  | .set v => .set (f v)
  | .increment v => .increment (f v)
  | .decrement v => .decrement (f v)
  | .multiply v => .multiply (f v)
  | .divide v => .divide (f v)

def Parameter.mapValue (p : Parameter) : Parameter := { p with value := f p.value }

def Command.mapValues (c : Command) : Command :=
  { c with parameters := c.parameters.map (·.mapValue f) }

def Record.mapValues (record : Record) : Record := record.map (Prod.map id f)

mutual

def Expression.mapValues : Expression → Expression
  | ⟨entity, property, column, operator, argument, functions, label, connective, negated, sort,
      children⟩ =>
    ⟨entity, property, column, operator, mapArgumentValues argument,
      functions.map (·.mapValues f), label, connective, negated, sort,
      mapExpressionValues children⟩

def mapExpressionValues : List Expression → List Expression
  | [] => []
  | x :: xs => x.mapValues :: mapExpressionValues xs

def mapArgumentValues : Option Argument → Option Argument
  | none => none
  | some argument => some argument.mapValues

def Argument.mapValues : Argument → Argument
  | .value v => .value (f v)
  | .range low high => .range (f low) (f high)
  | .list operands => .list (mapOperandValues operands)
  | .property other => .property other.mapValues

def mapOperandValues : List Operand → List Operand
  | [] => []
  | o :: os => o.mapValues :: mapOperandValues os

def Operand.mapValues : Operand → Operand
  | .value v => .value (f v)
  | .subQuery q => .subQuery q.mapValues

def SubQuery.mapValues : SubQuery → SubQuery
  | .command c => .command (c.mapValues f)
  | .deferred q => .deferred q.mapValues

def Query.mapValues : Query → Query
  | ⟨calls, page⟩ => ⟨mapCallValues calls, page⟩

def mapCallValues : List RecordedCall → List RecordedCall
  | [] => []
  | c :: cs => c.mapValues :: mapCallValues cs

def RecordedCall.mapValues : RecordedCall → RecordedCall
  | ⟨method, typeArguments, arguments⟩ => ⟨method, typeArguments, mapCallArgumentValues arguments⟩

def mapCallArgumentValues : List CallArgument → List CallArgument
  | [] => []
  | a :: as => a.mapValues :: mapCallArgumentValues as

def CallArgument.mapValues : CallArgument → CallArgument
  | .properties xs => .properties (mapExpressionValues xs)
  | .predicate x => .predicate x.mapValues
  | .values row => .values (row.map f)
  | .record entries => .record (Record.mapValues f entries)
  | .limit n => .limit n
  | .joinKind kind => .joinKind kind
  | .assignment x operation => .assignment x.mapValues (operation.mapValues f)

end

theorem mapExpressionValues_eq (xs : List Expression) :
    mapExpressionValues f xs = xs.map (·.mapValues f) := by
  induction xs with
  | nil => rfl
  | cons x xs ih => simp only [mapExpressionValues, ih, List.map_cons]

theorem mapOperandValues_eq (os : List Operand) :
    mapOperandValues f os = os.map (·.mapValues f) := by
  induction os with
  | nil => rfl
  | cons o os ih => simp only [mapOperandValues, ih, List.map_cons]

theorem mapCallValues_eq (cs : List RecordedCall) :
    mapCallValues f cs = cs.map (·.mapValues f) := by
  induction cs with
  | nil => rfl
  | cons c cs ih => simp only [mapCallValues, ih, List.map_cons]

theorem mapCallArgumentValues_eq (as : List CallArgument) :
    mapCallArgumentValues f as = as.map (·.mapValues f) := by
  induction as with
  | nil => rfl
  | cons a as ih => simp only [mapCallArgumentValues, ih, List.map_cons]

theorem mapArgumentValues_eq (a : Option Argument) :
    mapArgumentValues f a = a.map (·.mapValues f) := by
  cases a <;> rfl

namespace Expression

theorem mapValues_eq (x : Expression) :
    x.mapValues f = { x with
      argument := x.argument.map (·.mapValues f)
      functions := x.functions.map (·.mapValues f)
      children := x.children.map (·.mapValues f) } := by
  obtain ⟨_, _, _, _, argument, _, _, _, _, _, children⟩ := x
  rw [mapValues, mapArgumentValues_eq, mapExpressionValues_eq]

variable (x : Expression)

@[simp] theorem mapValues_entity : (x.mapValues f).entity = x.entity := by rw [mapValues_eq]

@[simp] theorem mapValues_property : (x.mapValues f).property = x.property := by rw [mapValues_eq]

@[simp] theorem mapValues_column : (x.mapValues f).column = x.column := by rw [mapValues_eq]

@[simp] theorem mapValues_operator : (x.mapValues f).operator = x.operator := by rw [mapValues_eq]

@[simp] theorem mapValues_argument :
    (x.mapValues f).argument = x.argument.map (·.mapValues f) := by rw [mapValues_eq]

@[simp] theorem mapValues_functions :
    (x.mapValues f).functions = x.functions.map (·.mapValues f) := by rw [mapValues_eq]

@[simp] theorem mapValues_label : (x.mapValues f).label = x.label := by rw [mapValues_eq]

@[simp] theorem mapValues_connective :
    (x.mapValues f).connective = x.connective := by rw [mapValues_eq]

@[simp] theorem mapValues_negated : (x.mapValues f).negated = x.negated := by rw [mapValues_eq]

@[simp] theorem mapValues_sort : (x.mapValues f).sort = x.sort := by rw [mapValues_eq]

@[simp] theorem mapValues_children :
    (x.mapValues f).children = x.children.map (·.mapValues f) := by rw [mapValues_eq]

@[simp] theorem mapValues_isWildcard : (x.mapValues f).isWildcard = x.isWildcard := by
  simp [isWildcard]

@[simp] theorem mapValues_isEmpty : (x.mapValues f).isEmpty = x.isEmpty := by simp [isEmpty]

@[simp] theorem mapValues_path : (x.mapValues f).path = x.path := by simp [path]

@[simp] theorem mapValues_typed : (x.mapValues f).typed = x.typed := by simp [typed]

end Expression

def Call.mapValues : Call → Call
  | .select properties => .select (properties.map (·.mapValues f))
  | .selectDistinct properties => .selectDistinct (properties.map (·.mapValues f))
  | .selectLimit limit => .selectLimit limit
  | .selectPropertiesLimit properties limit =>
    .selectPropertiesLimit (properties.map (·.mapValues f)) limit
  | .from entity => .from entity
  | .join kind entity on => .join kind entity (on.map (·.mapValues f))
  | .filter predicate => .filter (predicate.mapValues f)
  | .groupBy properties => .groupBy (properties.map (·.mapValues f))
  | .having predicate => .having (predicate.mapValues f)
  | .orderBy properties => .orderBy (properties.map (·.mapValues f))
  | .insert entity properties => .insert entity (properties.map (·.mapValues f))
  | .values row => .values (row.map f)
  | .valuesRecord record => .valuesRecord (record.mapValues f)
  | .update entity => .update entity
  | .set property operation => .set (property.mapValues f) (operation.mapValues f)
  | .delete entity => .delete entity
  | .truncate entity => .truncate entity
  | .union => .union
  | .unionAll => .unionAll
  | .paginate page => .paginate page

section Identity

theorem Function.mapValues_id (function : Function) : function.mapValues id = function := by
  simp [Function.mapValues]

theorem UpdateOperation.mapValues_id (operation : UpdateOperation) :
    operation.mapValues id = operation := by
  cases operation <;> rfl

theorem Command.mapValues_id (c : Command) : c.mapValues id = c := by
  simp [Command.mapValues, Parameter.mapValue]

theorem Record.mapValues_id (record : Record) : record.mapValues id = record := by
  simp [Record.mapValues]

mutual

theorem Expression.mapValues_id : ∀ x : Expression, x.mapValues id = x
  | ⟨_, _, _, _, argument, functions, _, _, _, _, children⟩ => by
    have same : functions.map (·.mapValues id) = functions :=
      List.map_id'' Function.mapValues_id functions
    rw [Expression.mapValues, mapArgumentValues_id argument, same,
      mapExpressionValues_id children]

theorem mapExpressionValues_id : ∀ xs : List Expression, mapExpressionValues id xs = xs
  | [] => rfl
  | x :: xs => by rw [mapExpressionValues, x.mapValues_id, mapExpressionValues_id xs]

theorem mapArgumentValues_id : ∀ a : Option Argument, mapArgumentValues id a = a
  | none => rfl
  | some a => by rw [mapArgumentValues, a.mapValues_id]

theorem Argument.mapValues_id : ∀ a : Argument, a.mapValues id = a
  | .value _ | .range _ _ => rfl
  | .list operands => by rw [Argument.mapValues, mapOperandValues_id operands]
  | .property other => by rw [Argument.mapValues, other.mapValues_id]

theorem mapOperandValues_id : ∀ os : List Operand, mapOperandValues id os = os
  | [] => rfl
  | o :: os => by rw [mapOperandValues, o.mapValues_id, mapOperandValues_id os]

theorem Operand.mapValues_id : ∀ o : Operand, o.mapValues id = o
  | .value _ => rfl
  | .subQuery q => by rw [Operand.mapValues, q.mapValues_id]

theorem SubQuery.mapValues_id : ∀ q : SubQuery, q.mapValues id = q
  | .command c => by rw [SubQuery.mapValues, c.mapValues_id]
  | .deferred q => by rw [SubQuery.mapValues, q.mapValues_id]

theorem Query.mapValues_id : ∀ q : Query, q.mapValues id = q
  | ⟨calls, _⟩ => by rw [Query.mapValues, mapCallValues_id calls]

theorem mapCallValues_id : ∀ cs : List RecordedCall, mapCallValues id cs = cs
  | [] => rfl
  | c :: cs => by rw [mapCallValues, c.mapValues_id, mapCallValues_id cs]

theorem RecordedCall.mapValues_id : ∀ c : RecordedCall, c.mapValues id = c
  | ⟨_, _, arguments⟩ => by rw [RecordedCall.mapValues, mapCallArgumentValues_id arguments]

theorem mapCallArgumentValues_id : ∀ as : List CallArgument, mapCallArgumentValues id as = as
  | [] => rfl
  | a :: as => by rw [mapCallArgumentValues, a.mapValues_id, mapCallArgumentValues_id as]

theorem CallArgument.mapValues_id : ∀ a : CallArgument, a.mapValues id = a
  | .properties xs => by rw [CallArgument.mapValues, mapExpressionValues_id xs]
  | .predicate x => by rw [CallArgument.mapValues, x.mapValues_id]
  | .values row => by rw [CallArgument.mapValues, List.map_id]
  | .record entries => by rw [CallArgument.mapValues, Record.mapValues_id entries]
  | .limit _ | .joinKind _ => rfl
  | .assignment x operation => by
    rw [CallArgument.mapValues, x.mapValues_id, operation.mapValues_id]

end

theorem Call.mapValues_id (c : Call) : c.mapValues id = c := by
  cases c <;> simp [Call.mapValues, Expression.mapValues_id, Record.mapValues_id,
    UpdateOperation.mapValues_id]

end Identity
end DmlCompiler
