import DmlCompiler.Entity
import DmlCompiler.QueryError

/-! # The entity registry

The entities known by name. A registry that validates takes only entities whose table and columns
are identifiers, and a refused entity leaves it as it was.
-/
namespace DmlCompiler

structure Registry where
  validates : Bool
  entities : List Entity
deriving DecidableEq, Repr

namespace Registry

/-- The entity of any result is known from the beginning. -/
def new (validates : Bool) : Registry := ⟨validates, [.queryResult]⟩

def entity? (r : Registry) (name : String) : Option Entity := r.entities.find? (·.name == name)

def entity (r : Registry) (name : String) : Except QueryError Entity :=
  match r.entity? name with
  | some e => .ok e
  | none => .error (.unknownEntity name)

/-- The table is checked first, then the columns in their order. -/
def checkNames (e : Entity) : Except QueryError Unit :=
  (e.table :: e.columns.map (·.column)).forM fun name =>
    (Identifier.check name).mapError .validation

def replacing (r : Registry) (e : Entity) : Registry :=
  { r with entities := e :: r.entities.filter (·.name != e.name) }

/-- Enters the entity. What is changed before a failure stays changed, so the names are checked
first. -/
def enter (e : Entity) : ExceptT QueryError (StateM Registry) Unit := do
  let r ← get
  if r.validates && !e.isQueryResult then checkNames e
  set (r.replacing e)

def register (r : Registry) (e : Entity) : Except QueryError Registry :=
  match (enter e).run r with
  | (.ok (), r) => .ok r
  | (.error e, _) => .error e

def contains (r : Registry) (name : String) : Bool := (r.entity? name).isSome

def size (r : Registry) : Nat := r.entities.length

def names (r : Registry) : List String := (r.entities.map (·.name)).mergeSort (· ≤ ·)

def column (r : Registry) (entity property : String) : Except QueryError ColumnRef := do
  let e ← r.entity entity
  match e.column? property with
  | some c => return e.ref c
  | none => throw (.metadataResolution e.name property)

end Registry
end DmlCompiler
