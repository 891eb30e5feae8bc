import DmlCompiler.Proofs.Build.Steps
import DmlCompiler.Proofs.Grammar
import DmlCompiler.Proofs.Rendering.Queries

/-! # How calls begin statements

A call that begins a statement writes its keyword and sets its kind. Every other call leaves the
kind and goes on with the text. -/
namespace DmlCompiler

open Sql Build

def StatementKind.keyword? : StatementKind → Option String
  | .select => some "SELECT"
  | .insert => some "INSERT INTO"
  | .update => some "UPDATE"
  | .delete => some "DELETE FROM"
  | .truncate => some "TRUNCATE TABLE"
  | .unknown => none

def Clause.opens? : Clause → Option StatementKind
  | .select => some .select
  | .insert => some .insert
  | .update => some .update
  | .delete => some .delete
  | .truncate => some .truncate
  | _ => none

namespace Draft

structure Extends (d d' : Draft) : Prop where
  kind : d'.kind = d.kind
  sql : d.sql <+: d'.sql

instance : IsPreorder Draft Extends where
  refl _ := ⟨rfl, List.prefix_rfl⟩
  trans _ _ _ h h' := ⟨h'.kind.trans h.kind, h.sql.trans h'.sql⟩

structure Turns (begun : StatementKind) (d d' : Draft) : Prop where
  kind : d'.kind = begun
  sql : ∃ keyword ∈ begun.keyword?, d.sql ++ ofString keyword <+: d'.sql

theorem extends_holdsWithin : HoldsWithin Extends where
  appends := by
    rintro d _ ⟨_, _, rfl⟩
    exact ⟨rfl, List.prefix_rfl⟩
  write _ sql := ⟨rfl, sql, rfl⟩
  clause _ _ := ⟨rfl, List.prefix_rfl⟩
  selected _ _ := ⟨rfl, List.prefix_rfl⟩
  listPending _ _ := ⟨rfl, List.prefix_rfl⟩
  rowLimit _ _ := ⟨rfl, List.prefix_rfl⟩
  page _ _ := ⟨rfl, List.prefix_rfl⟩
  target _ _ := ⟨rfl, List.prefix_rfl⟩
  closed _ := ⟨rfl, List.prefix_rfl⟩
  condition _ _ _ := ⟨rfl, _, rfl⟩
  groupCondition _ _ _ := ⟨rfl, _, rfl⟩

theorem Turns.then {kind : StatementKind} {d d₁ d' : Draft} (h : d.Turns kind d₁)
    (later : d₁.Extends d') : d.Turns kind d' := by
  obtain ⟨keyword, known, begun⟩ := h.sql
  exact ⟨later.kind.trans h.kind, keyword, known, begun.trans later.sql⟩

end Draft

section Calls

open Draft

variable {compile : Query → Build Command}

namespace Build

theorem prefix_write (before : Sql) (keyword behind : String) :
    before ++ ofString keyword <+: before ++ ofString (keyword ++ behind) := by
  rw [ofString_append]
  exact ⟨ofString behind, by simp⟩

theorem selectBlock_turns (properties : List Expression) (distinct : Bool)
    (limit : Option UInt64) :
    Keeps (Turns .select) (selectBlock compile properties distinct limit) := by
  intro d u d' given
  obtain ⟨_, d₁, expected, afterExpect⟩ := gives_bind.1 given
  obtain ⟨-, rfl⟩ := expect_gives expected
  obtain ⟨_, d₂, limited, afterLimit⟩ := gives_bind.1 afterExpect
  obtain ⟨rowLimit, rfl⟩ := limitRows_gives limited
  obtain ⟨_, d₃, kinded, afterKind⟩ := gives_bind.1 afterLimit
  obtain rfl := gives_modify.1 kinded
  obtain ⟨_, d₄, opened, afterOpening⟩ := gives_bind.1 afterKind
  obtain rfl := gives_modify.1 opened
  have begun : d₁.sql ++ ofString "SELECT" <+:
      d₁.sql ++ ofString (if distinct then "SELECT DISTINCT " else "SELECT ") := by
    cases distinct
    · exact prefix_write d₁.sql "SELECT" " "
    · exact prefix_write d₁.sql "SELECT" " DISTINCT "
  refine Turns.then ⟨rfl, "SELECT", rfl, begun⟩ (Keeps.bind ?_ (fun list => ?_) afterOpening)
  · exact keeps_mapM extends_holdsWithin.projected _
  · exact (extends_holdsWithin.listWritten list).bind fun _ => extends_holdsWithin.movedTo .select

theorem insertInto_turns (e : Entity) (properties : List Expression) :
    Keeps (Turns .insert) (insertInto e properties) := by
  intro d u d' given
  obtain ⟨_, d₁, expected, afterExpect⟩ := gives_bind.1 given
  obtain ⟨-, rfl⟩ := expect_gives expected
  obtain ⟨_, d₂, checked, afterCheck⟩ := gives_bind.1 afterExpect
  obtain rfl := checkTarget_gives checked
  obtain ⟨_, d₃, targeted, afterTarget⟩ := gives_bind.1 afterCheck
  obtain rfl := gives_modify.1 targeted
  obtain ⟨_, d₄, permitted, afterPermission⟩ := gives_bind.1 afterTarget
  have same : { d₂ with target := some e } = d₄ := by
    refine keeps_forM (r := Eq) (fun x => ?_) _ permitted
    have column : Keeps Eq (checkColumn x) := fun _ _ _ h => (checkColumn_gives h).symm
    exact column.bind fun _ => x.checkPermission_keeps .insert
  subst same
  split at afterPermission
  · exact (keeps_throw_bind (r := fun _ _ => False) _ _ afterPermission).elim
  · obtain ⟨_, d₅, opened, afterOpening⟩ := gives_bind.1 afterPermission
    obtain rfl := gives_modify.1 opened
    obtain ⟨_, d₆, kinded, moved⟩ := gives_bind.1 afterOpening
    obtain rfl := gives_modify.1 kinded
    refine Turns.then ⟨rfl, "INSERT INTO", rfl, ?_⟩ (extends_holdsWithin.movedTo .insert moved)
    have text : s!"INSERT INTO {e.table} (" = "INSERT INTO" ++ (" " ++ e.table ++ " (") := by
      rw [← String.append_assoc, ← String.append_assoc]
      rfl
    have begun := prefix_write d₂.sql "INSERT INTO" (" " ++ e.table ++ " (")
    rw [← text] at begun
    refine begun.trans ?_
    dsimp only
    rw [List.append_assoc, ← List.append_assoc d₂.sql]
    exact List.prefix_append _ _

theorem beginWith_turns (clause : Clause) {kind : StatementKind} (keyword behind : String)
    (known : kind.keyword? = some keyword) (e : Entity) :
    Keeps (Turns kind) (beginWith clause kind (keyword ++ behind) e) := by
  intro d u d' given
  obtain ⟨_, d₁, expected, afterExpect⟩ := gives_bind.1 given
  obtain ⟨-, rfl⟩ := expect_gives expected
  obtain ⟨_, d₂, checked, afterCheck⟩ := gives_bind.1 afterExpect
  obtain rfl := checkTarget_gives checked
  obtain ⟨_, d₃, opened, afterOpening⟩ := gives_bind.1 afterCheck
  obtain rfl := gives_modify.1 opened
  obtain ⟨_, d₄, kinded, moved⟩ := gives_bind.1 afterOpening
  obtain rfl := gives_modify.1 kinded
  refine Turns.then ⟨rfl, keyword, known, ?_⟩ (extends_holdsWithin.movedTo clause moved)
  dsimp only
  rw [String.append_assoc]
  exact prefix_write _ _ _

end Build

def Call.opens? (c : Call) : Option StatementKind := c.clause?.bind Clause.opens?

theorem Call.make_turns {c : Call} {kind : StatementKind} (h : c.opens? = some kind) :
    Keeps (Turns kind) (c.make compile) := by
  cases c <;> cases h
  case select | selectDistinct | selectLimit | selectPropertiesLimit =>
    exact selectBlock_turns _ _ _
  case insert e xs => exact insertInto_turns e xs
  case update e => exact beginWith_turns .update "UPDATE" " " rfl e
  case delete e => exact beginWith_turns .delete "DELETE FROM" " " rfl e
  case truncate e => exact beginWith_turns .truncate "TRUNCATE TABLE" " " rfl e

theorem Call.make_extends {c : Call} (h : c.opens? = none) : Keeps Extends (c.make compile) := by
  have steps := extends_holdsWithin
  cases c <;> try cases h
  case «from» e => exact steps.fromEntity e
  case join kind e on => exact steps.joinEntity kind e on
  case filter x => exact steps.filterBy x
  case groupBy xs => exact steps.groupBy xs
  case having x => exact steps.havingBy x
  case orderBy xs => exact steps.orderBy xs
  case values row => exact steps.valuesRow row
  case valuesRecord record => exact steps.valuesRecord record
  case set x operation => exact steps.setColumn x operation
  case union => exact steps.unionWith " UNION "
  case unionAll => exact steps.unionWith " UNION ALL "
  case paginate page => exact keeps_modify fun d => steps.page d (some page)

end Calls

end DmlCompiler
