import DmlCompiler.Proofs.SubQueries

/-! # Nodes

The expressions of a query at every depth: those that the calls name, the columns that they are
compared with, their children, and the expressions of the recorded queries inside of them. -/
namespace DmlCompiler

mutual

def Expression.nodes : Expression → List Expression
  | x@⟨_, _, _, _, argument, _, _, _, _, _, children⟩ =>
    x :: (argumentNodes argument ++ expressionNodes children)

def expressionNodes : List Expression → List Expression
  | [] => []
  | x :: xs => x.nodes ++ expressionNodes xs

def argumentNodes : Option Argument → List Expression
  | none => []
  | some argument => argument.nodes

def Argument.nodes : Argument → List Expression
  | .value _ | .range _ _ => []
  | .list operands => operandNodes operands
  | .property other => other.nodes

def operandNodes : List Operand → List Expression
  | [] => []
  | o :: os => o.nodes ++ operandNodes os

def Operand.nodes : Operand → List Expression
  | .value _ => []
  | .subQuery q => q.nodes

def SubQuery.nodes : SubQuery → List Expression
  | .command _ => []
  | .deferred q => q.nodes

def Query.nodes : Query → List Expression
  | ⟨calls, _⟩ => recordedNodes calls

def recordedNodes : List RecordedCall → List Expression
  | [] => []
  | c :: cs => c.nodes ++ recordedNodes cs

def RecordedCall.nodes : RecordedCall → List Expression
  | ⟨_, _, arguments⟩ => callArgumentNodes arguments

def callArgumentNodes : List CallArgument → List Expression
  | [] => []
  | a :: as => a.nodes ++ callArgumentNodes as

def CallArgument.nodes : CallArgument → List Expression
  | .properties xs => expressionNodes xs
  | .predicate x | .assignment x _ => x.nodes
  | .values _ | .record _ | .limit _ | .joinKind _ => []

end

theorem expressionNodes_eq (xs : List Expression) : expressionNodes xs = xs.flatMap (·.nodes) := by
  induction xs with
  | nil => rfl
  | cons x xs ih => rw [expressionNodes, ih, List.flatMap_cons]

theorem operandNodes_eq (os : List Operand) : operandNodes os = os.flatMap (·.nodes) := by
  induction os with
  | nil => rfl
  | cons o os ih => rw [operandNodes, ih, List.flatMap_cons]

theorem recordedNodes_eq (cs : List RecordedCall) : recordedNodes cs = cs.flatMap (·.nodes) := by
  induction cs with
  | nil => rfl
  | cons c cs ih => rw [recordedNodes, ih, List.flatMap_cons]

theorem callArgumentNodes_eq (as : List CallArgument) :
    callArgumentNodes as = as.flatMap (·.nodes) := by
  induction as with
  | nil => rfl
  | cons a as ih => rw [callArgumentNodes, ih, List.flatMap_cons]

namespace Expression

variable {x y z : Expression}

theorem self_mem_nodes (x : Expression) : x ∈ x.nodes := by
  cases x
  rw [nodes]
  exact List.mem_cons_self

theorem argument_nodes {a : Argument} (h : x.argument = some a) (mem : z ∈ a.nodes) :
    z ∈ x.nodes := by
  obtain ⟨_, _, _, _, argument, _, _, _, _, _, _⟩ := x
  cases h
  rw [nodes, argumentNodes]
  exact List.mem_cons_of_mem _ (List.mem_append_left _ mem)

theorem children_nodes (h : y ∈ x.children) (mem : z ∈ y.nodes) : z ∈ x.nodes := by
  obtain ⟨_, _, _, _, _, _, _, _, _, _, children⟩ := x
  rw [nodes, expressionNodes_eq]
  exact List.mem_cons_of_mem _ (List.mem_append_right _ (List.mem_flatMap.2 ⟨y, h, mem⟩))

theorem operand_nodes {operands : List Operand} {q : Query}
    (h : x.argument = some (.list operands)) (inside : .subQuery (.deferred q) ∈ operands)
    (mem : z ∈ q.nodes) : z ∈ x.nodes := by
  apply argument_nodes h
  rw [Argument.nodes, operandNodes_eq]
  refine List.mem_flatMap.2 ⟨_, inside, ?_⟩
  rwa [Operand.nodes, SubQuery.nodes]

end Expression

theorem CallArgument.nodes_eq (a : CallArgument) : a.nodes = a.expressions.flatMap (·.nodes) := by
  cases a with
  | properties xs => exact expressionNodes_eq xs
  | predicate x => exact (List.append_nil _).symm
  | assignment x operation => exact (List.append_nil _).symm
  | _ => rfl

theorem RecordedCall.nodes_eq (c : RecordedCall) : c.nodes = c.expressions.flatMap (·.nodes) := by
  cases c
  simp only [nodes, callArgumentNodes_eq, CallArgument.nodes_eq, expressions, List.flatMap_assoc]

theorem Query.nodes_eq (q : Query) :
    q.nodes = q.calls.flatMap fun c => c.expressions.flatMap (·.nodes) := by
  cases q
  simp only [nodes, recordedNodes_eq, RecordedCall.nodes_eq]

theorem Query.expression_nodes {q : Query} {c : RecordedCall} {x z : Expression} (hc : c ∈ q.calls)
    (hx : x ∈ c.expressions) (mem : z ∈ x.nodes) : z ∈ q.nodes := by
  rw [nodes_eq]
  exact List.mem_flatMap.2 ⟨c, hc, List.mem_flatMap.2 ⟨x, hx, mem⟩⟩

end DmlCompiler
