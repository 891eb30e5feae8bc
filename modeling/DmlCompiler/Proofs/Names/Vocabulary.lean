import DmlCompiler.Proofs.Nodes
import DmlCompiler.Proofs.Permissions
import DmlCompiler.Proofs.Places
import DmlCompiler.Sql.Renaming

/-! # What a statement may name

A vocabulary tells which column a node stands for. A text spelled in it names columns only as the
vocabulary does: beside them there are words that statements about anything are made of, tables and
select lists of known entities, places for parameters, and the sub-queries. -/
namespace DmlCompiler

def Sql.commonWords : List String :=
  ["*", "(", ")", ", ", " ", "NOT ", " AND ", "SELECT ", "SELECT DISTINCT ", " FROM ", " ON ",
    " WHERE (", " HAVING (", " AND (", " OR (", " GROUP BY ", " ORDER BY ",
    " ORDER BY (SELECT NULL)", "INSERT INTO ", " (", " VALUES ", "UPDATE ", "DELETE FROM ",
    "TRUNCATE TABLE ", " SET ", " = ", "+", "-", "/", " UNION ", " UNION ALL ", "LEN("]

inductive Dialect.IsWord (d : Dialect) : String → Prop where
  | common {word : String} (h : word ∈ Sql.commonWords) : IsWord d word
  | opening (kind : FunctionKind) : IsWord d (d.opening kind)
  | separator (kind : FunctionKind) : IsWord d kind.separator
  | operator (operator : Operator) : IsWord d s!" {operator.sql}"
  | connective (connective : Connective) : IsWord d s!" {connective.sql} "
  | joinKind (kind : JoinKind) : IsWord d s!" {kind.sql} "
  | order (order : SortOrder) : IsWord d s!" {order.sql}"
  | rowLimit (limit : UInt64) : IsWord d (Dialect.rowLimit limit)
  | page (page : Page) : IsWord d (d.pageClause page)

structure Vocabulary where
  dialect : Dialect
  registry : Registry
  /-- Select lists from before the statement. -/
  kept : SelectCache
  nodes : List Expression
  /-- What column a node stands for. -/
  stands : Expression → ColumnRef → Prop

namespace Vocabulary

/-- Of every node that the call checks, the column that it stands for permits what is done. -/
def Permits (V : Vocabulary) (call : Call) : Prop :=
  ∀ g ∈ call.guards, g.1.column.isSome →
    ∃ known, V.stands g.1 known ∧ known.permissions.allows g.2 = true

def PermitsAll (V : Vocabulary) (q : Query) : Prop :=
  ∀ record ∈ q.calls, ∃ call, record.call? V.dialect V.registry = .ok call ∧ V.Permits call

/-- The text is spelled in the vocabulary. The text of a finished command may be any, and that of a
recorded query is spelled itself and its calls are permitted. -/
inductive Spells (V : Vocabulary) : Sql → Prop where
  | nil : Spells V []
  | append {a b : Sql} (ha : Spells V a) (hb : Spells V b) : Spells V (a ++ b)
  | place (number : Nat) : Spells V [.place number]
  | word {word : String} (h : V.dialect.IsWord word) : Spells V (Sql.ofString word)
  | label {label : String} (h : Identifier.checkShape label = .ok ()) :
      Spells V (Sql.ofString s!" AS {label}")
  | table {name : String} {e : Entity} (known : V.registry.entity? name = some e) :
      Spells V (Sql.ofString e.table)
  | selectList {name : String} {e : Entity} (known : V.registry.entity? name = some e) :
      Spells V (Sql.ofString e.selectList)
  | keptList {key : String × String} {list : String} (kept : (key, list) ∈ V.kept) :
      Spells V (Sql.ofString list)
  | insertable {name : String} {e : Entity} {c : Column}
      (known : V.registry.entity? name = some e) (mem : c ∈ e.insertable) :
      Spells V (Sql.ofString c.column)
  | reference {x : Expression} {known : ColumnRef} (node : x ∈ V.nodes) (h : V.stands x known) :
      Spells V (Sql.ofString known.sql)
  | name {x : Expression} {known : ColumnRef} (node : x ∈ V.nodes) (h : V.stands x known) :
      Spells V (Sql.ofString known.column)
  | finished {x : Expression} {c : Command} (node : x ∈ V.nodes)
      (inside : .command c ∈ x.subQueries) (renames : List (String × Nat)) :
      Spells V (Sql.ofFinished renames c.sql)
  | recorded {x : Expression} {q : Query} {sql : Sql} (node : x ∈ V.nodes)
      (inside : .deferred q ∈ x.subQueries) (permitted : V.PermitsAll q) (h : Spells V sql)
      (renames : List (String × Nat)) : Spells V (Sql.ofFinished renames (sql.text V.dialect))

/-- The command is that of the query in the vocabulary. -/
structure Expresses (V : Vocabulary) (q : Query) (c : Command) : Prop where
  spelled : ∃ sql : Sql, c.sql = sql.text V.dialect ∧ V.Spells sql
  permitted : V.PermitsAll q

end Vocabulary

structure ColumnRef.Agrees (c known : ColumnRef) : Prop where
  table : c.table = known.table
  column : c.column = known.column
  permissions : c.permissions = known.permissions

theorem ColumnRef.Agrees.sql {c known : ColumnRef} (h : c.Agrees known) : c.sql = known.sql := by
  rw [ColumnRef.sql, ColumnRef.sql, h.table, h.column]

namespace Vocabulary

/-- The columns that the nodes carry agree with those that they stand for. -/
def Covers (V : Vocabulary) : Prop :=
  ∀ x ∈ V.nodes, ∀ c ∈ x.column, ∃ known, V.stands x known ∧ c.Agrees known

variable {V : Vocabulary} {x : Expression} {c : ColumnRef} {sql : Sql}

open Sql

theorem Covers.reference (hV : V.Covers) (node : x ∈ V.nodes) (h : x.column = some c) :
    V.Spells (ofString c.sql) := by
  obtain ⟨known, stands, agrees⟩ := hV x node c h
  exact agrees.sql ▸ .reference node stands

theorem Covers.name (hV : V.Covers) (node : x ∈ V.nodes) (h : x.column = some c) :
    V.Spells (ofString c.column) := by
  obtain ⟨known, stands, agrees⟩ := hV x node c h
  exact agrees.column ▸ .name node stands

theorem Covers.permits (hV : V.Covers) (node : x ∈ V.nodes) {kind : StatementKind}
    (permitted : x.Permits kind) (carried : x.column.isSome) :
    ∃ known, V.stands x known ∧ known.permissions.allows kind = true := by
  obtain ⟨c, hc⟩ := Option.isSome_iff_exists.1 carried
  obtain ⟨known, stands, agrees⟩ := hV x node c hc
  exact ⟨known, stands, agrees.permissions ▸ permitted c hc⟩

theorem spells_common {word : String} (h : word ∈ commonWords) : V.Spells (ofString word) :=
  .word (.common h)

theorem spells_isClosed : IsClosed V.Spells := ⟨.nil, .append⟩

theorem spells_flatten {fragments : List Sql} (h : ∀ sql ∈ fragments, V.Spells sql) :
    V.Spells fragments.flatten :=
  spells_isClosed.flatten h

theorem spells_list {fragments : List Sql} (h : ∀ sql ∈ fragments, V.Spells sql) :
    V.Spells (join ", " fragments) :=
  spells_isClosed.join (spells_common (by decide)) h

theorem spells_closing : ∀ count : Nat, V.Spells (List.replicate count (.char ')'))
  | 0 => .nil
  | count + 1 => .append (spells_common (by decide : ")" ∈ commonWords)) (spells_closing count)

theorem Spells.parenthesize (h : V.Spells sql) : V.Spells sql.parenthesize :=
  .append (.append (spells_common (by decide)) h) (spells_common (by decide))

end Vocabulary
end DmlCompiler
