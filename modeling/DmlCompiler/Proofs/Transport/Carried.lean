import DmlCompiler.Proofs.Transport.Queries

/-! # What queries carry

The values inside of a query, down to those of its sub-queries. What the leaves of its document are
is a question of these values alone: beside them stand names, texts, truth values and small numbers.
-/
namespace DmlCompiler

open Json

def Command.carried (c : Command) : List SqlValue := c.parameters.map (·.value)

mutual

def Expression.carried : Expression → List SqlValue
  | ⟨_, _, _, _, argument, functions, _, _, _, _, children⟩ =>
    carriedByArgument argument ++ functions.flatMap (·.params) ++ carriedByExpressions children

def carriedByExpressions : List Expression → List SqlValue
  | [] => []
  | x :: xs => x.carried ++ carriedByExpressions xs

def carriedByArgument : Option Argument → List SqlValue
  | none => []
  | some argument => argument.carried

def Argument.carried : Argument → List SqlValue
  | .value v => [v]
  | .range low high => [low, high]
  | .list operands => carriedByOperands operands
  | .property other => other.carried

def carriedByOperands : List Operand → List SqlValue
  | [] => []
  | o :: os => o.carried ++ carriedByOperands os

def Operand.carried : Operand → List SqlValue
  | .value v => [v]
  | .subQuery q => q.carried

def SubQuery.carried : SubQuery → List SqlValue
  | .command c => c.carried
  | .deferred q => q.carried

/-- The values that the query carries, those of its sub-queries included. -/
def Query.carried : Query → List SqlValue
  | ⟨calls, _⟩ => carriedByCalls calls

def carriedByCalls : List RecordedCall → List SqlValue
  | [] => []
  | c :: cs => c.carried ++ carriedByCalls cs

def RecordedCall.carried : RecordedCall → List SqlValue
  | ⟨_, _, arguments⟩ => carriedByCallArguments arguments

def carriedByCallArguments : List CallArgument → List SqlValue
  | [] => []
  | a :: as => a.carried ++ carriedByCallArguments as

def CallArgument.carried : CallArgument → List SqlValue
  | .properties xs => carriedByExpressions xs
  | .predicate x => x.carried
  | .values row => row
  | .record entries => entries.map Prod.snd
  | .limit _ | .joinKind _ => []
  | .assignment x operation => x.carried ++ [operation.value]

end

/-- The property is no question of what is carried: it holds of whatever else a query is made of. -/
structure Json.HoldsBeside (P : Json → Prop) : Prop where
  null : P .null
  bool : ∀ b, P (.bool b)
  string : ∀ s, P (.string s)
  natural : ∀ n < 2 ^ 64, P (.ofNat n)

section Leaves

variable {P : Json → Prop} (beside : HoldsBeside P)
include beside

theorem leaves_orNull_name {α : Type} (name : α → String) (o : Option α) :
    (orNull (fun a => .string (name a)) o).AllLeaves P := by
  cases o <;> simp [orNull, beside.null, beside.string]

theorem leaves_size (size : Option UInt32) : (sizeJson size).AllLeaves P := by
  cases size with
  | none => simp [sizeJson, orNull, beside.null]
  | some n =>
    have small := n.toNat_lt
    simpa [sizeJson, orNull, ofNat] using beside.natural n.toNat (by omega)

theorem leaves_page (page : Option Page) : (orNull Page.encode page).AllLeaves P := by
  have word (n : UInt64) : P (.ofNat n.toNat) := beside.natural _ n.toNat_lt
  rcases page with _ | ⟨_ | limit, _ | offset⟩ <;>
    simp_all [orNull, Page.encode, ofNat, beside.null]

theorem ColumnRef.leaves_encode (c : ColumnRef) : c.encode.AllLeaves P := by
  simp [encode, ColumnType.encode, Permissions.encode, beside.string, beside.bool,
    leaves_size beside]

theorem Command.leaves_encode (c : Command) :
    c.encode.AllLeaves P ↔ ∀ v ∈ c.carried, v.encode.AllLeaves P := by
  have type (t : Option ColumnType) : (orNull ColumnType.encode t).AllLeaves P :=
    leaves_orNull_name beside ColumnType.name t
  simp [encode, Parameter.encode, carried, beside.string, type, leaves_size beside,
    leaves_page beside]

theorem Record.leaves_encode (r : Record) :
    (Record.encode r).AllLeaves P ↔ ∀ v ∈ r.map Prod.snd, v.encode.AllLeaves P := by
  rw [encode, allLeaves_array, List.forall_mem_map, List.forall_mem_map]
  refine forall₂_congr fun entry _ => ?_
  simp [beside.string]

theorem Function.leaves_encode (f : Function) :
    f.encode.AllLeaves P ↔ ∀ v ∈ f.params, v.encode.AllLeaves P := by
  simp [encode, beside.string]

omit beside in
theorem UpdateOperation.leaves_encode (operation : UpdateOperation) :
    operation.encode.AllLeaves P ↔ operation.value.encode.AllLeaves P := by
  cases operation <;> simp [encode, variant, value]

-- some of them need it only through the others
set_option linter.unusedSectionVars false

mutual

theorem Expression.leaves_encode : ∀ x : Expression,
    x.encode.AllLeaves P ↔ ∀ v ∈ x.carried, v.encode.AllLeaves P
  | ⟨entity, property, column, operator, argument, functions, label, connective, negated, sort,
      children⟩ => by
    have column : (orNull ColumnRef.encode column).AllLeaves P := by
      cases column with
      | none => simp [orNull, beside.null]
      | some c => exact c.leaves_encode beside
    have functions : (Json.array (functions.map Function.encode)).AllLeaves P ↔
        ∀ v ∈ functions.flatMap (·.params), v.encode.AllLeaves P := by
      rw [allLeaves_array, List.forall_mem_map, List.forall_mem_flatMap]
      exact forall₂_congr fun f _ => f.leaves_encode beside
    have label : (orNull Json.string label).AllLeaves P := leaves_orNull_name beside id label
    rw [Expression.encode, Expression.carried, List.forall_mem_append, List.forall_mem_append,
      ← leaves_encodeArgument argument, ← functions, ← leaves_encodeExpressions children]
    simp [beside.string, beside.bool, column, label, leaves_orNull_name beside, and_assoc]

theorem leaves_encodeExpressions : ∀ xs : List Expression,
    (∀ x ∈ encodeExpressions xs, x.AllLeaves P) ↔ ∀ v ∈ carriedByExpressions xs, v.encode.AllLeaves P
  | [] => by simp [encodeExpressions, carriedByExpressions]
  | x :: xs => by
    rw [encodeExpressions, carriedByExpressions, List.forall_mem_cons, List.forall_mem_append,
      x.leaves_encode, leaves_encodeExpressions xs]

theorem leaves_encodeArgument : ∀ a : Option Argument,
    (encodeArgument a).AllLeaves P ↔ ∀ v ∈ carriedByArgument a, v.encode.AllLeaves P
  | none => by simp [encodeArgument, carriedByArgument, beside.null]
  | some a => a.leaves_encode

theorem Argument.leaves_encode : ∀ a : Argument,
    a.encode.AllLeaves P ↔ ∀ v ∈ a.carried, v.encode.AllLeaves P
  | .value v => by simp [Argument.encode, Argument.carried, variant]
  | .range low high => by simp [Argument.encode, Argument.carried, variant]
  | .list operands => by
    rw [Argument.carried, ← leaves_encodeOperands operands]
    simp [Argument.encode, variant]
  | .property other => by
    rw [Argument.carried, ← other.leaves_encode]
    simp [Argument.encode, variant]

theorem leaves_encodeOperands : ∀ os : List Operand,
    (∀ o ∈ encodeOperands os, o.AllLeaves P) ↔ ∀ v ∈ carriedByOperands os, v.encode.AllLeaves P
  | [] => by simp [encodeOperands, carriedByOperands]
  | o :: os => by
    rw [encodeOperands, carriedByOperands, List.forall_mem_cons, List.forall_mem_append,
      o.leaves_encode, leaves_encodeOperands os]

theorem Operand.leaves_encode : ∀ o : Operand,
    o.encode.AllLeaves P ↔ ∀ v ∈ o.carried, v.encode.AllLeaves P
  | .value v => by simp [Operand.encode, Operand.carried, variant]
  | .subQuery q => by
    rw [Operand.carried, ← q.leaves_encode]
    simp [Operand.encode, variant]

theorem SubQuery.leaves_encode : ∀ q : SubQuery,
    q.encode.AllLeaves P ↔ ∀ v ∈ q.carried, v.encode.AllLeaves P
  | .command c => by
    rw [SubQuery.carried, ← c.leaves_encode beside]
    simp [SubQuery.encode, variant]
  | .deferred q => by
    rw [SubQuery.carried, ← q.leaves_encode]
    simp [SubQuery.encode, variant]

/-- The leaves of a query's document are those of the values that it carries, and plain ones. -/
theorem Query.leaves_encode : ∀ q : Query,
    q.encode.AllLeaves P ↔ ∀ v ∈ q.carried, v.encode.AllLeaves P
  | ⟨calls, page⟩ => by
    rw [Query.carried, ← leaves_encodeCalls calls]
    simp [Query.encode, leaves_page beside]

theorem leaves_encodeCalls : ∀ cs : List RecordedCall,
    (∀ c ∈ encodeCalls cs, c.AllLeaves P) ↔ ∀ v ∈ carriedByCalls cs, v.encode.AllLeaves P
  | [] => by simp [encodeCalls, carriedByCalls]
  | c :: cs => by
    rw [encodeCalls, carriedByCalls, List.forall_mem_cons, List.forall_mem_append,
      c.leaves_encode, leaves_encodeCalls cs]

theorem RecordedCall.leaves_encode : ∀ c : RecordedCall,
    c.encode.AllLeaves P ↔ ∀ v ∈ c.carried, v.encode.AllLeaves P
  | ⟨method, typeArguments, arguments⟩ => by
    rw [RecordedCall.carried, ← leaves_encodeCallArguments arguments]
    simp [RecordedCall.encode, beside.string]

theorem leaves_encodeCallArguments : ∀ as : List CallArgument,
    (∀ a ∈ encodeCallArguments as, a.AllLeaves P) ↔
      ∀ v ∈ carriedByCallArguments as, v.encode.AllLeaves P
  | [] => by simp [encodeCallArguments, carriedByCallArguments]
  | a :: as => by
    rw [encodeCallArguments, carriedByCallArguments, List.forall_mem_cons, List.forall_mem_append,
      a.leaves_encode, leaves_encodeCallArguments as]

theorem CallArgument.leaves_encode : ∀ a : CallArgument,
    a.encode.AllLeaves P ↔ ∀ v ∈ a.carried, v.encode.AllLeaves P
  | .properties xs => by
    rw [CallArgument.carried, ← leaves_encodeExpressions xs]
    simp [CallArgument.encode, variant]
  | .predicate x => by
    rw [CallArgument.carried, ← x.leaves_encode]
    simp [CallArgument.encode, variant]
  | .values row => by simp [CallArgument.encode, CallArgument.carried, variant]
  | .record entries => by
    rw [CallArgument.carried, ← Record.leaves_encode beside entries]
    simp [CallArgument.encode, variant]
  | .limit n => by
    have word := beside.natural n.toNat n.toNat_lt
    simpa [CallArgument.encode, CallArgument.carried, variant, ofNat] using word
  | .joinKind kind => by simp [CallArgument.encode, CallArgument.carried, variant, beside.string]
  | .assignment x operation => by
    rw [CallArgument.carried, List.forall_mem_append, ← x.leaves_encode, List.forall_mem_singleton,
      ← operation.leaves_encode]
    simp [CallArgument.encode, variant]

end
end Leaves

end DmlCompiler
