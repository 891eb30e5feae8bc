import DmlCompiler.Query.Recording

/-! # Compiling queries

A query is compiled by making its calls on an empty draft. Its sub-queries are compiled in the
same way on child drafts, as many levels down as the query is deep.
-/
namespace DmlCompiler

mutual

def Expression.depth : Expression → Nat
  | ⟨_, _, _, _, argument, _, _, _, _, _, children⟩ =>
    max (argumentDepth argument) (expressionsDepth children)

def expressionsDepth : List Expression → Nat
  | [] => 0
  | x :: xs => max x.depth (expressionsDepth xs)

def argumentDepth : Option Argument → Nat
  | some argument => argument.depth
  | none => 0

def Argument.depth : Argument → Nat
  | .value _ | .range _ _ => 0
  | .list operands => operandsDepth operands
  | .property other => other.depth

def operandsDepth : List Operand → Nat
  | [] => 0
  | o :: os => max o.depth (operandsDepth os)

def Operand.depth : Operand → Nat
  | .value _ => 0
  | .subQuery q => q.depth

def SubQuery.depth : SubQuery → Nat
  | .command _ => 0
  | .deferred q => q.depth + 1

def Query.depth : Query → Nat
  | ⟨calls, _⟩ => callsDepth calls

def callsDepth : List RecordedCall → Nat
  | [] => 0
  | ⟨_, _, arguments⟩ :: calls => max (callArgumentsDepth arguments) (callsDepth calls)

def callArgumentsDepth : List CallArgument → Nat
  | [] => 0
  | a :: as => max a.depth (callArgumentsDepth as)

def CallArgument.depth : CallArgument → Nat
  | .properties xs => expressionsDepth xs
  | .predicate x | .assignment x _ => x.depth
  | .values _ | .record _ | .limit _ | .joinKind _ => 0

end

namespace RecordedCall

/-- Makes the call. A record that is no call concerns the query and not the draft, which stays
usable. -/
def replay (compile : Query → Build Command) (c : RecordedCall) : Build Unit := do
  let d ← get
  match c.call? d.dialect d.registry with
  | .ok call => Build.guarded (call.make compile)
  | .error e => throw e

end RecordedCall

namespace Query

def setPage (compile : Query → Build Command) (q : Query) : Build Unit :=
  match q.page with
  | some page => Build.guarded ((Call.paginate page).make compile)
  | none => return ()

def replay (compile : Query → Build Command) (q : Query) : Build Unit := do
  q.setPage compile
  q.calls.forM (·.replay compile)

/-- The command of a query with fewer than `levels` queries inside one another. -/
def compileWithin : Nat → Query → Build Command
  | 0, _ => Build.finish
  | levels + 1, q => do
    q.replay (compileWithin levels)
    Build.finish

def compile (q : Query) : Build Command := compileWithin (q.depth + 1) q

end Query

def Build.makeAll (calls : List Call) : Build Unit :=
  calls.forM fun c => guarded (c.make Query.compile)

namespace Draft

def call (d : Draft) (c : Call) : Except QueryError Unit × Draft :=
  (Build.guarded (c.make Query.compile)).run d

def run (d : Draft) (calls : List Call) : Except QueryError Unit × Draft :=
  (Build.makeAll calls).run d

def command (d : Draft) : Command :=
  ⟨d.name, d.lastFinished.1, d.parameters, d.kind, d.lastFinished.2⟩

/-- Finishes the command of the draft as it is now. The draft keeps it, and building can go on. -/
def toCommand (d : Draft) : Except QueryError Command × Draft :=
  match Build.finish.run d with
  | (.ok c, d) =>
    let d := { d with lastFinished := (c.sql, c.page) }
    (.ok d.command, d)
  | (.error e, d) => (.error e, d)

def replay (d : Draft) (q : Query) : Except QueryError Unit × Draft := (q.replay Query.compile).run d

def compile (d : Draft) (q : Query) : Except QueryError Command × Draft := q.compile.run d

def build (d : Draft) (calls : List Call) : Except QueryError Command × Draft :=
  (do
    Build.makeAll calls
    Build.finish : Build Command).run d

end Draft
end DmlCompiler
