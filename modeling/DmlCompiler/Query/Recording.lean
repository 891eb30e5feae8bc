import DmlCompiler.Call

/-! # Recording calls

A query records calls without looking at them. `RecordedCall.call?` turns a recorded call back
into the call, for a dialect and a registry; it fails where no call has this record.
-/
namespace DmlCompiler

def Call.recorded? : Call → Option RecordedCall
  | .select properties => some ⟨.select, [], [.properties properties]⟩
  | .selectDistinct properties => some ⟨.selectDistinct, [], [.properties properties]⟩
  | .selectLimit limit => some ⟨.selectLimit, [], [.limit limit]⟩
  | .selectPropertiesLimit properties limit =>
    some ⟨.selectPropertiesLimit, [], [.properties properties, .limit limit]⟩
  | .from entity => some ⟨.from, [entity.name], []⟩
  | .join kind entity on =>
    some ⟨.join, [entity.name], .joinKind kind :: (on.map CallArgument.predicate).toList⟩
  | .filter predicate => some ⟨.filter, [], [.predicate predicate]⟩
  | .groupBy properties => some ⟨.groupBy, [], [.properties properties]⟩
  | .having predicate => some ⟨.having, [], [.predicate predicate]⟩
  | .orderBy properties => some ⟨.orderBy, [], [.properties properties]⟩
  | .insert entity properties => some ⟨.insert, [entity.name], [.properties properties]⟩
  | .values row => some ⟨.values, [], [.values row]⟩
  | .valuesRecord record => some ⟨.valuesRecord, [], [.record record]⟩
  | .update entity => some ⟨.update, [entity.name], []⟩
  | .set property operation => some ⟨.set, [], [.assignment property operation]⟩
  | .delete entity => some ⟨.delete, [entity.name], []⟩
  | .truncate entity => some ⟨.truncate, [entity.name], []⟩
  | .union => some ⟨.union, [], []⟩
  | .unionAll => some ⟨.unionAll, [], []⟩
  | .paginate _ => none

namespace Query

def empty : Query := ⟨[], none⟩

/-- Of several pages the last one counts. -/
def record (q : Query) (call : Call) : Query :=
  match call with
  | .paginate page => { q with page := some page }
  | call => { q with calls := q.calls ++ call.recorded?.toList }

def ofCalls (calls : List Call) : Query := calls.foldl record empty

end Query

def Method.isAvailable (m : Method) (d : Dialect) : Bool :=
  match m with
  | .selectLimit | .selectPropertiesLimit => d.hasRowLimit
  | _ => true

def Dialect.methodSummary (d : Dialect) : String :=
  let signatures := (Method.all.filter (·.isAvailable d)).map (·.signature)
  let quoted := (signatures.mergeSort (· ≤ ·)).map fun s => "\"" ++ s ++ "\""
  s!"MethodTable \x7b dialect: {d.title}, methods: [" ++ ", ".intercalate quoted ++ "] \x7d"

namespace RecordedCall

def fail {α : Type} (c : RecordedCall) (cause : MethodError) : Except QueryError α :=
  .error (.methodResolution c.method cause)

/-- The argument at a position, which must be of the expected kind. -/
def argument {α : Type} (c : RecordedCall) (position : Nat) (expected : ArgumentKind)
    (read : CallArgument → Option α) : Except QueryError α :=
  match c.arguments[position]? with
  | none => c.fail (.missingArgument expected position)
  | some found =>
    match read found with
    | some a => .ok a
    | none => c.fail (.wrongArgument position expected found.kind)

def properties (c : RecordedCall) (position : Nat) : Except QueryError (List Expression) :=
  c.argument position .properties fun
    | .properties xs => some xs
    | _ => none

def predicate (c : RecordedCall) (position : Nat) : Except QueryError Expression :=
  c.argument position .predicate fun
    | .predicate x => some x
    | _ => none

def optionalPredicate (c : RecordedCall) (position : Nat) :
    Except QueryError (Option Expression) :=
  if position < c.arguments.length then (c.predicate position).map some else .ok none

def values (c : RecordedCall) (position : Nat) : Except QueryError (List SqlValue) :=
  c.argument position .values fun
    | .values row => some row
    | _ => none

def record (c : RecordedCall) (position : Nat) : Except QueryError Record :=
  c.argument position .record fun
    | .record entries => some entries
    | _ => none

def limit (c : RecordedCall) (position : Nat) : Except QueryError UInt64 :=
  c.argument position .limit fun
    | .limit n => some n
    | _ => none

def joinKind (c : RecordedCall) (position : Nat) : Except QueryError JoinKind :=
  c.argument position .joinType fun
    | .joinKind kind => some kind
    | _ => none

def assignment (c : RecordedCall) (position : Nat) :
    Except QueryError (Expression × UpdateOperation) :=
  c.argument position .assignment fun
    | .assignment x operation => some (x, operation)
    | _ => none

def entities (c : RecordedCall) (r : Registry) : Except QueryError (List Entity) :=
  if c.typeArguments.length ≠ c.method.arity then
    c.fail (.typeArguments c.method.arity c.typeArguments.length)
  else
    c.typeArguments.mapM fun name =>
      match r.entity? name with
      | some e => .ok e
      | none => c.fail (.notRegistered name)

def entity (c : RecordedCall) : List Entity → Except QueryError Entity
  | e :: _ => .ok e
  | [] => c.fail (.missingType 0)

/-- The call of the method on these entities. Arguments beyond those of the method are ignored. -/
def assemble (c : RecordedCall) (entities : List Entity) : Except QueryError Call :=
  match c.method with
  | .select => return .select (← c.properties 0)
  | .selectDistinct => return .selectDistinct (← c.properties 0)
  | .selectLimit => return .selectLimit (← c.limit 0)
  | .selectPropertiesLimit => return .selectPropertiesLimit (← c.properties 0) (← c.limit 1)
  | .from => return .from (← c.entity entities)
  | .join => return .join (← c.joinKind 0) (← c.entity entities) (← c.optionalPredicate 1)
  | .filter => return .filter (← c.predicate 0)
  | .groupBy => return .groupBy (← c.properties 0)
  | .having => return .having (← c.predicate 0)
  | .orderBy => return .orderBy (← c.properties 0)
  | .insert => return .insert (← c.entity entities) (← c.properties 0)
  | .values => return .values (← c.values 0)
  | .valuesRecord => return .valuesRecord (← c.record 0)
  | .update => return .update (← c.entity entities)
  | .set => return (fun (x, operation) => .set x operation) (← c.assignment 0)
  | .delete => return .delete (← c.entity entities)
  | .truncate => return .truncate (← c.entity entities)
  | .union => return .union
  | .unionAll => return .unionAll

def call? (c : RecordedCall) (d : Dialect) (r : Registry) : Except QueryError Call :=
  if c.method.isAvailable d then do
    c.assemble (← c.entities r)
  else c.fail (.notAvailable d)

end RecordedCall
end DmlCompiler
