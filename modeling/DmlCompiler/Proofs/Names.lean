import DmlCompiler.Expression.Fluent
import DmlCompiler.Proofs.Names.Statements
import DmlCompiler.Proofs.Transport

/-! # What a transported query names

A query read from a text names the columns that its nodes carry in the text, and it is allowed what
they permit. Where the nodes agree with the registry these are the columns that the registry gives
for the names of the nodes; a text whose nodes do not agree is compiled as well. -/
namespace DmlCompiler

open Build

/-- The registry gives a column like the carried one for the names of the expression. -/
def Expression.IsResolved (registry : Registry) (x : Expression) : Prop :=
  ∀ c ∈ x.column, ∃ known, registry.column x.entity x.property = .ok known ∧ c.Agrees known

namespace Vocabulary

def carried (dialect : Dialect) (registry : Registry) (kept : SelectCache) (q : Query) :
    Vocabulary where
  dialect := dialect
  registry := registry
  kept := kept
  nodes := q.nodes
  stands x c := x.column = some c

def resolved (dialect : Dialect) (registry : Registry) (kept : SelectCache) (q : Query) :
    Vocabulary where
  dialect := dialect
  registry := registry
  kept := kept
  nodes := q.nodes
  stands x known := registry.column x.entity x.property = .ok known

/-- The reference of every node, on whatever draft, names the column that the node stands for. -/
def Names (V : Vocabulary) (q : Query) : Prop :=
  ∀ x ∈ q.nodes, x.isWildcard = false → ∀ d sql d', Gives x.reference d sql d' →
    ∃ known, V.stands x known ∧ Sql.ofString known.sql <:+: sql

/-- The check of a node passes or fails by the permissions of the column that it stands for. -/
def Checks (V : Vocabulary) (q : Query) : Prop :=
  ∀ x ∈ q.nodes, x.column.isSome → ∀ kind, ∃ known, V.stands x known ∧
    x.checkPermission kind = if known.permissions.allows kind then return ()
      else throw (.permissionDenied x.path kind)

/-- The vocabulary is what the query names columns and is permitted its calls by. -/
structure Governs (V : Vocabulary) (q : Query) (c : Command) : Prop where
  expressed : V.Expresses q c
  names : V.Names q
  checks : V.Checks q

/-- The compiled command of a query whose nodes are covered is governed by the vocabulary. -/
theorem Covers.governs {V : Vocabulary} (hV : V.Covers) {q : Query} (nodes : V.nodes = q.nodes)
    {options : Options} {c : Command}
    (compiled : ((Draft.new V.dialect V.registry options V.kept).compile q).1 = .ok c) :
    V.Governs q c where
  expressed := by
    have fresh : (Draft.new V.dialect V.registry options V.kept).SpeltIn V :=
      ⟨rfl, rfl, fun _ kept => .keptList kept, .nil⟩
    exact (q.compile_expresses hV (fun x hx => nodes ▸ hx) fresh (Prod.ext compiled rfl)).2
  names x hx column _ _ _ given := Expression.reference_names hV (nodes ▸ hx) column given
  checks x hx carried kind := by
    obtain ⟨c, found⟩ := Option.isSome_iff_exists.1 carried
    obtain ⟨known, stands, agrees⟩ := hV x (nodes ▸ hx) c found
    refine ⟨known, stands, ?_⟩
    rw [Expression.checkPermission, found, ← agrees.permissions]

end Vocabulary

/-- The command of an accepted text names the columns that the nodes of the text carry and is
permitted what these permit. If the nodes agree with the registry, it names the columns that the
registry gives for the nodes and is permitted what the registry permits. -/
theorem transported_names {text : String} {dialect : Dialect} {registry : Registry}
    {options : Options} {cache : SelectCache} {c : Command}
    (compiled : (do
      let q ← Query.ofText text
      ((Draft.new dialect registry options cache).compile q).1) = .ok c) :
    ∃ q, Query.ofText text = .ok q ∧
      (Vocabulary.carried dialect registry cache q).Governs q c ∧
      ((∀ x ∈ q.nodes, x.IsResolved registry) →
        (Vocabulary.resolved dialect registry cache q).Governs q c) := by
  obtain ⟨q, accepted, compiled⟩ := RecordedCall.exists_of_bind compiled
  refine ⟨q, accepted, ?_, fun agree => ?_⟩
  · have covers : (Vocabulary.carried dialect registry cache q).Covers :=
      fun x _ column carries => ⟨column, carries, rfl, rfl, rfl⟩
    exact covers.governs rfl compiled
  · have covers : (Vocabulary.resolved dialect registry cache q).Covers := agree
    exact covers.governs rfl compiled

def supplier : Entity where
  name := "Supplier"
  table := "Supplier"
  columns := [
    { property := "CompanyName", column := "CompanyName", type := .varChar },
    { property := "Phone", column := "Phone", type := .varChar,
      permissions := { select := false } }]

def suppliers : Registry := ⟨true, [supplier, .queryResult]⟩

def suppliersWhere (selected : Expression) (conditions : List Expression) : Query :=
  ⟨⟨.select, [], [.properties [selected]]⟩ :: ⟨.from, ["Supplier"], []⟩ ::
    conditions.map fun x => ⟨.filter, [], [.predicate x]⟩, none⟩

def companyName : Expression :=
  .bare "Supplier" "CompanyName" (some ⟨"Supplier", "CompanyName", .varChar, none, .all⟩)

def supplierNames : Query :=
  suppliersWhere companyName [companyName.compare .isIn
    (.list [.subQuery (.deferred (suppliersWhere companyName []))])]

def supplierNamesCommand : Command where
  name := Command.anonymous
  sql := "SELECT Supplier.CompanyName FROM Supplier WHERE (Supplier.CompanyName IN " ++
    "(SELECT Supplier.CompanyName FROM Supplier))"
  parameters := []
  kind := .select
  page := none

def salary : Expression :=
  .bare "Supplier" "Phone" (some ⟨"Employee", "Salary", .decimal, none, .all⟩)

def salaries : Query := suppliersWhere salary []

def salariesCommand : Command where
  name := Command.anonymous
  sql := "SELECT Employee.Salary FROM Supplier"
  parameters := []
  kind := .select
  page := none

/-- A query without numbers that is not nested too deeply is read from its own text. -/
theorem Query.ofText_toText_shallow {q : Query} (arrives : q.encode.Arrives 127)
    (whole : ∀ leaf ∈ q.encode.leaves, leaf matches .float _ → False) :
    Query.ofText q.toText = .ok q := by
  rw [ofText_toText (q.encode_prints fun x there => (whole _ there rfl).elim), if_pos arrives]

theorem transported_names_suppliers :
    Query.ofText supplierNames.toText = .ok supplierNames ∧
    (Vocabulary.resolved .postgres suppliers [] supplierNames).Governs supplierNames
      supplierNamesCommand := by
  have accepted : Query.ofText supplierNames.toText = .ok supplierNames :=
    Query.ofText_toText_shallow (by decide +kernel) (by decide +kernel)
  have compiled : ((Draft.new .postgres suppliers {} []).compile supplierNames).1 =
      .ok supplierNamesCommand := by decide +kernel
  have agree : ∀ x ∈ supplierNames.nodes, x.IsResolved suppliers := by
    have same : ∀ x ∈ supplierNames.nodes, x.entity = companyName.entity ∧
        x.property = companyName.property ∧ x.column = companyName.column := by decide +kernel
    intro x hx c carried
    obtain ⟨entity, property, column⟩ := same x hx
    rw [column] at carried
    cases carried
    rw [entity, property]
    exact ⟨_, rfl, rfl, rfl, rfl⟩
  obtain ⟨q, read, _, governed⟩ := transported_names (by
    show (Query.ofText supplierNames.toText >>= fun q =>
      ((Draft.new .postgres suppliers {} []).compile q).1) = .ok supplierNamesCommand
    rw [accepted]
    exact compiled)
  rw [accepted] at read
  cases read
  exact ⟨accepted, governed agree⟩

/-- The registry has another column for the names of the node, and forbids to select it. -/
theorem salaries_selected :
    let V := Vocabulary.resolved .standard suppliers [] salaries
    Query.ofText salaries.toText = .ok salaries ∧
    ((Draft.new .standard suppliers {} []).compile salaries).1 = .ok salariesCommand ∧
    suppliers.column "Supplier" "Phone" =
      .ok ⟨"Supplier", "Phone", .varChar, none, { select := false }⟩ ∧
    ¬ V.PermitsAll salaries ∧ ¬ V.Names salaries := by
  have accepted : Query.ofText salaries.toText = .ok salaries :=
    Query.ofText_toText_shallow (by decide +kernel) (by decide +kernel)
  refine ⟨accepted, by decide +kernel, rfl, fun permitted => ?_, fun names => ?_⟩
  · obtain ⟨call, read, permits⟩ := permitted _ List.mem_cons_self
    have select : Except.ok (.select [salary]) = Except.ok call := read
    cases select
    obtain ⟨known, found, allowed⟩ := permits (salary, .select) (by simp [Call.guards]) rfl
    cases found
    cases allowed
  · have node : salary ∈ salaries.nodes := List.mem_cons_self
    obtain ⟨known, found, named⟩ := names salary node rfl (.new .standard suppliers {} []) _ _ rfl
    cases found
    revert named
    decide

end DmlCompiler
