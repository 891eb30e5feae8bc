import DmlCompiler.Proofs.Bindings
import DmlCompiler.Proofs.Grammar
import DmlCompiler.Proofs.Permissions
import Mathlib.Data.List.Forall2

/-! # Which entry of a record a column gets

A row of an insert can be given as a record. A column takes its value from the first entry whose key
is the property's name, the column's or that of the backing field, so an entry that belongs to
another property can come first. Here it is said when every column gets the value that the record
has under its property's own name. -/
namespace DmlCompiler

open Build

section Spellings

variable {x : Expression} {name : String} {record : Record}

namespace Expression

/-- A record may hold the value of the column under this name. -/
def answersTo (x : Expression) (name : String) : Bool :=
  ([x.property, backingField x.property] ++ (x.column.map (·.column)).toList).contains name

theorem answersTo_property (x : Expression) : x.answersTo x.property = true := by
  simp [answersTo]

end Expression

/-- A column that finds its value under a name gets that of the first entry of this name. -/
theorem Build.recordValue?_eq_lookup
    (first : (record.map Prod.fst).find? x.answersTo = some name) :
    recordValue? record x = record.lookup name := by
  have answers : x.answersTo name = true := List.find?_some first
  have find : recordValue? record x =
      (record.find? fun entry => x.answersTo entry.1).map (·.2) := rfl
  rw [find]
  induction record with
  | nil => rfl
  | cons entry record ih =>
    obtain ⟨key, value⟩ := entry
    rw [List.map_cons, List.find?_cons] at first
    rw [List.find?_cons, List.lookup_cons]
    by_cases taken : x.answersTo key
    · simp only [taken, Option.some.injEq] at first ⊢
      simp [first]
    · have other : name ≠ key := by
        rintro rfl
        exact taken answers
      simp only [taken] at first ⊢
      rw [beq_false_of_ne other]
      exact ih first rfl

/-- Of the columns of an entity none answers to the property of another one. -/
def Entity.TellsApart (e : Entity) (columns : List Column) : Prop :=
  ∀ c ∈ columns, ∀ other ∈ e.columns,
    (Expression.ofColumn e c).answersTo other.property = true → other = c

end Spellings

namespace Draft

def HasRoom (d : Draft) (n : Nat) : Prop :=
  d.options.maxParameters.toNat = 0 ∨ d.parameters.length + n ≤ d.options.maxParameters.toNat

def cells (row : List SqlValue) (xs : List Expression) : List Binding :=
  List.zipWith (fun value x => .ofColumn x.column value) row xs

/-- The draft with one more row: for the columns, in their order, the places of new parameters,
which hold the values. -/
def withRow (d : Draft) (row : List SqlValue) : Draft :=
  let places := row.mapIdx fun i _ => [Symbol.place (d.parameters.length + i + 1)]
  let opener := if d.clause = .values then ", " else " VALUES "
  { d.bound (cells row d.insertColumns) with
    sql := d.sql ++ (Sql.ofString opener ++ (Sql.join ", " places).parenthesize)
    clause := .values }

def inserting (d : Draft) (e : Entity) (xs : List Expression) : Draft :=
  let names := (insertList e xs).filterMap fun x => x.column.map (·.column)
  { d with
    target := some e
    sql := d.sql ++ (Sql.ofString s!"INSERT INTO {e.table} (" ++
      Sql.join ", " (names.map Sql.ofString) ++ Sql.ofString ")")
    kind := .insert
    insertColumns := insertList e xs
    clause := .insert }

end Draft

section Rows

variable {d : Draft} {row : List SqlValue} {record : Record}

namespace Build

theorem bindValue_gives (room : d.HasRoom 1) (column : Option ColumnRef) (value : SqlValue) :
    Gives (bindValue column value) d [.place (d.parameters.length + 1)]
      (d.bound [.ofColumn column value]) := by
  have below : ¬ (d.options.maxParameters.toNat ≠ 0 ∧
      d.options.maxParameters.toNat < d.parameters.length + 1) := by
    unfold Draft.HasRoom at room
    omega
  have number : Gives (addParameter value (column.map (·.type)) (column.bind (·.size))) d
      (d.parameters.length + 1) (d.bound [.ofColumn column value]) := by
    rw [addParameter, gives_get_bind, if_neg below]
    rfl
  exact gives_bind.2 ⟨_, _, number, gives_pure.2 ⟨rfl, rfl⟩⟩

theorem bindCells_gives : ∀ {d : Draft} {row : List SqlValue} {xs : List Expression},
    row.length = xs.length → d.HasRoom row.length →
    Gives ((row.zip xs).mapM fun cell => bindValue cell.2.column cell.1) d
      (row.mapIdx fun i _ => [.place (d.parameters.length + i + 1)]) (d.bound (Draft.cells row xs))
  | d, [], [], _, _ => by
    have nothing : d.bound (Draft.cells [] []) = d := d.bound_nil
    rw [nothing]
    rfl
  | d, value :: row, x :: xs, fits, room => by
    have head : d.HasRoom 1 := by
      unfold Draft.HasRoom at room ⊢
      rw [List.length_cons] at room
      omega
    have count := (d.gains_bound [.ofColumn x.column value]).count
    rw [List.length_singleton] at count
    have tail : (d.bound [.ofColumn x.column value]).HasRoom row.length := by
      unfold Draft.HasRoom at room ⊢
      rw [count]
      rw [List.length_cons] at room
      simp only [Draft.bound]
      omega
    have next (i : Nat) : d.parameters.length + 1 + i = d.parameters.length + (i + 1) := by omega
    have fitsRest : row.length = xs.length := Nat.succ.inj fits
    have rest := bindCells_gives fitsRest tail
    rw [Draft.bound_append, count] at rest
    rw [List.zip_cons_cons, List.mapM_cons]
    refine gives_bind.2 ⟨_, _, bindValue_gives head x.column value,
      gives_bind.2 ⟨_, _, rest, gives_pure.2 ⟨?_, rfl⟩⟩⟩
    simp only [List.mapIdx_cons, next, Nat.add_zero]

theorem appendRow_gives (fits : row.length = d.insertColumns.length)
    (room : d.HasRoom row.length) : Gives (appendRow row) d () (d.withRow row) := by
  rw [appendRow, gives_get_bind, if_neg (not_not.2 fits)]
  exact gives_bind.2 ⟨_, _, bindCells_gives fits room, rfl⟩

theorem orFail_mapM_gives {α ι : Type} {f : ι → Option α} {e : ι → QueryError} {is : List ι}
    {as : List α} (found : List.Forall₂ (fun i a => f i = some a) is as) :
    Gives (is.mapM fun i => orFail (f i) (e i)) d as d := by
  induction found with
  | nil => rfl
  | cons here _ ih =>
    rw [List.mapM_cons]
    refine gives_bind.2 ⟨_, _, ?_, gives_bind.2 ⟨_, _, ih, rfl⟩⟩
    rw [here]
    rfl

theorem valuesRecord_gives (follows : Clause.values.mayFollow d.clause = true)
    (found : List.Forall₂ (fun x value => recordValue? record x = some value) d.insertColumns row)
    (room : d.HasRoom d.insertColumns.length) :
    Gives (valuesRecord record) d () (d.withRow row) := by
  have expected : Gives (expect .values) d () d := by
    rw [expect, gives_get_bind, if_pos follows]
    rfl
  have length : d.insertColumns.length = row.length := found.length_eq
  have appended := appendRow_gives length.symm (length ▸ room)
  refine gives_bind.2 ⟨_, _, expected, ?_⟩
  rw [gives_get_bind]
  exact gives_bind.2 ⟨_, _, orFail_mapM_gives found, appended⟩

theorem forM_gives {ι : Type} {f : ι → Build Unit} :
    ∀ {is : List ι}, (∀ i ∈ is, Gives (f i) d () d) → Gives (is.forM f) d () d
  | [], _ => rfl
  | i :: _, passes => gives_bind.2 ⟨(), d, passes i List.mem_cons_self,
      forM_gives fun j mem => passes j (List.mem_cons_of_mem i mem)⟩

theorem insertInto_gives {e : Entity} {xs : List Expression} (fresh : d.clause = .start)
    (takes : e.Takes .insert) (listed : insertList e xs ≠ [])
    (own : ∀ x ∈ insertList e xs, x.entity = e.name ∧ x.isEmpty = false ∧ x.Permits .insert) :
    Gives (insertInto e xs) d () (d.inserting e xs) := by
  have expected : Gives (expect .insert) d () d := by
    rw [expect, gives_get_bind, fresh, if_pos (by decide)]
    rfl
  have target : Gives (checkTarget e .insert) d () d := by
    have table : e.isQueryResult = false := by simp [Entity.isQueryResult, takes.isTable]
    rw [checkTarget, table, checkPermission, takes.permits]
    rfl
  have checked : Gives ((insertList e xs).forM fun x => do
      checkColumn x
      x.checkPermission .insert) { d with target := some e } () { d with target := some e } := by
    apply forM_gives
    intro x mem
    obtain ⟨entity, named, permits⟩ := own x mem
    refine gives_bind.2 ⟨(), { d with target := some e }, ?_, ?_⟩
    · rw [checkColumn, gives_get_bind, if_neg (by simp [entity, named])]
      rfl
    · rw [Expression.checkPermission]
      cases column : x.column with
      | none => rfl
      | some c =>
        dsimp only
        rw [if_pos (permits c (by simp [column]))]
        rfl
  have list : (insertList e xs).isEmpty = false := by simpa using listed
  rw [insertInto]
  refine gives_bind.2 ⟨(), _, expected, gives_bind.2 ⟨(), _, target, ?_⟩⟩
  refine gives_bind.2 ⟨⟨⟩, _, rfl, gives_bind.2 ⟨(), _, checked, ?_⟩⟩
  dsimp only
  rw [list]
  rfl

end Build

namespace Draft

/-- A row for the insert columns can follow. -/
structure AwaitsRow (d : Draft) : Prop where
  healthy : d.failure = none
  follows : Clause.values.mayFollow d.clause = true
  room : d.HasRoom d.insertColumns.length

/-- The record is taken, and a column that has entries under its property's own name gets the value
of the first of them. -/
def TakesOwn (d : Draft) (record : Record) : Prop :=
  ∃ row, d.call (.valuesRecord record) = (.ok (), d.withRow row) ∧
    List.Forall₂ (fun x value => ∀ own, record.lookup x.property = some own → value = own)
      d.insertColumns row

theorem AwaitsRow.call_record (h : d.AwaitsRow)
    (found : List.Forall₂ (fun x value => recordValue? record x = some value)
      d.insertColumns row) :
    d.call (.valuesRecord record) = (.ok (), d.withRow row) :=
  gives_guarded.2 ⟨h.healthy, valuesRecord_gives h.follows found h.room⟩

variable {names : List String}

theorem withRow_values (fits : row.length = d.insertColumns.length) :
    ((d.withRow row).parameters.drop d.parameters.length).map (·.value) = row := by
  apply List.ext_getElem
  · simp [withRow, Draft.bound, cells, fits]
  · intro i _ _
    simp [withRow, Draft.bound, cells, Binding.ofColumn]

theorem exists_row (accepted : ∀ x ∈ d.insertColumns, ∃ name ∈ names, x.answersTo name = true)
    (keys : record.map Prod.fst = names) : ∃ row,
      List.Forall₂ (fun x value => recordValue? record x = some value) d.insertColumns row := by
  subst keys
  generalize d.insertColumns = xs at accepted
  induction xs with
  | nil => exact ⟨[], .nil⟩
  | cons x xs ih =>
    obtain ⟨rest, found⟩ := ih fun y mem => accepted y (List.mem_cons_of_mem x mem)
    obtain ⟨name, mem, answers⟩ := accepted x List.mem_cons_self
    obtain ⟨entry, listed, rfl⟩ := List.mem_map.1 mem
    have some : (record.find? fun entry => x.answersTo entry.1).isSome = true :=
      List.find?_isSome.2 ⟨entry, listed, answers⟩
    obtain ⟨entry, first⟩ := Option.isSome_iff_exists.1 some
    have here : recordValue? record x = Option.some entry.2 :=
      congrArg (Option.map Prod.snd) first
    exact ⟨entry.2 :: rest, .cons here found⟩

/-- All records with these keys give the columns what is theirs exactly if no column finds a key of
another spelling before its property's own name. -/
theorem AwaitsRow.takesOwn_iff (h : d.AwaitsRow)
    (accepted : ∀ x ∈ d.insertColumns, ∃ name ∈ names, x.answersTo name = true) :
    (∀ record : Record, record.map Prod.fst = names → d.TakesOwn record) ↔
      ∀ x ∈ d.insertColumns, x.property ∈ names →
        names.find? x.answersTo = some x.property := by
  constructor
  · intro takes x mem listed
    -- a record that tells the property's own entries from all others
    let record : Record := names.map fun name => (name, .boolean (name == x.property))
    have keys : record.map Prod.fst = names := by simp [record, Function.comp_def]
    obtain ⟨row, found⟩ := exists_row accepted keys
    obtain ⟨taken, called, own⟩ := takes record keys
    have same : taken = row := by
      have left := (h.call_record found).symm.trans called
      rw [← withRow_values own.length_eq.symm, ← withRow_values found.length_eq.symm,
        (Prod.mk.inj left).2]
    subst same
    obtain ⟨name, key, answers⟩ := accepted x mem
    obtain ⟨first, eq⟩ := Option.isSome_iff_exists.1 (List.find?_isSome.2 ⟨name, key, answers⟩)
    have key : first ∈ names := List.mem_of_find?_eq_some eq
    obtain ⟨i, rfl⟩ := List.mem_iff_get.1 mem
    rw [List.forall₂_iff_get] at found own
    have inRow : i.1 < taken.length := found.1 ▸ i.2
    have value := found.2 i.1 i.2 inRow
    have its := own.2 i.1 i.2 inRow (.boolean true)
      ((List.lookup_graph _ listed).trans (by simp))
    rw [recordValue?_eq_lookup (keys ▸ eq), List.lookup_graph _ key, its] at value
    rw [eq]
    simpa using value
  · intro first record keys
    obtain ⟨row, found⟩ := exists_row accepted keys
    refine ⟨row, h.call_record found, ?_⟩
    rw [List.forall₂_iff_get] at found ⊢
    refine ⟨found.1, fun i inColumns inRow own lookup => ?_⟩
    have mem := List.get_mem d.insertColumns ⟨i, inColumns⟩
    have listed : (d.insertColumns.get ⟨i, inColumns⟩).property ∈ names := by
      obtain ⟨before, after, eq, _⟩ := List.lookup_eq_some_iff.1 lookup
      rw [← keys, eq]
      simp
    have value := found.2 i inColumns inRow
    rw [recordValue?_eq_lookup (keys ▸ first _ mem listed), lookup] at value
    exact (Option.some.inj value).symm

end Draft
end Rows

structure Entity.Inserts (e : Entity) (xs : List Expression) (columns : List Column) : Prop where
  takes : e.Takes .insert
  listed : insertList e xs = columns.map (Expression.ofColumn e)
  some : columns ≠ []
  own : ∀ c ∈ columns, c ∈ e.columns
  permits : ∀ c ∈ columns, c.permissions.insert = true

namespace Draft

variable {d : Draft} {e : Entity} {xs : List Expression} {columns : List Column}

theorem call_insert (healthy : d.failure = none) (fresh : d.clause = .start)
    (inserts : e.Inserts xs columns) :
    d.call (.insert e xs) = (.ok (), d.inserting e xs) := by
  refine gives_guarded.2 ⟨healthy, insertInto_gives fresh inserts.takes ?_ ?_⟩
  · rw [inserts.listed]
    simpa using inserts.some
  · intro x mem
    rw [inserts.listed] at mem
    obtain ⟨c, listed, rfl⟩ := List.mem_map.1 mem
    refine ⟨rfl, rfl, fun ref carried => ?_⟩
    cases carried
    exact inserts.permits c listed

theorem inserting_awaitsRow (healthy : d.failure = none) (room : d.HasRoom columns.length)
    (inserts : e.Inserts xs columns) : (d.inserting e xs).AwaitsRow where
  healthy := healthy
  follows := rfl
  room := by
    have columnCount : (d.inserting e xs).insertColumns.length = columns.length := by
      show (insertList e xs).length = _
      rw [inserts.listed, List.length_map]
    rw [columnCount]
    exact room

/-- The inserted columns get what a record of all properties has for their own ones. -/
def FillsOwn (d : Draft) (e : Entity) (xs : List Expression) (columns : List Column)
    (record : Record) : Prop :=
  ∃ row, d.run [.insert e xs, .valuesRecord record] = (.ok (), (d.inserting e xs).withRow row) ∧
    List.Forall₂ (fun c value => record.lookup c.property = some value) columns row

theorem run_singleton (d : Draft) (c : Call) : d.run [c] = d.call c := by
  rw [run_cons]
  rcases d.call c with ⟨_ | _, _⟩ <;> rfl

theorem exists_lookup {record : Record} {name : String} (mem : name ∈ record.map Prod.fst) :
    ∃ value, record.lookup name = some value := by
  obtain ⟨entry, listed, rfl⟩ := List.mem_map.1 mem
  cases found : record.lookup entry.1 with
  | some value => exact ⟨value, rfl⟩
  | none => simpa using List.lookup_eq_none_iff.1 found entry listed

theorem fillsOwn_iff (healthy : d.failure = none) (fresh : d.clause = .start)
    (inserts : e.Inserts xs columns) {record : Record}
    (lists : ∀ c ∈ columns, c.property ∈ record.map Prod.fst) :
    d.FillsOwn e xs columns record ↔ (d.inserting e xs).TakesOwn record := by
  have columnsOf : (d.inserting e xs).insertColumns = columns.map (Expression.ofColumn e) :=
    inserts.listed
  unfold FillsOwn TakesOwn
  rw [columnsOf, run_cons, call_insert healthy fresh inserts]
  dsimp only
  rw [run_singleton]
  constructor
  · rintro ⟨row, called, own⟩
    refine ⟨row, called, List.forall₂_map_left_iff.2 (own.imp fun c value found other lookup => ?_)⟩
    exact Option.some.inj (found.symm.trans lookup)
  · rintro ⟨row, called, own⟩
    refine ⟨row, called, ?_⟩
    rw [List.forall₂_map_left_iff, List.forall₂_iff_get] at own
    refine List.forall₂_iff_get.2 ⟨own.1, fun i inColumns inRow => ?_⟩
    obtain ⟨value, found⟩ := exists_lookup (lists _ (List.get_mem columns ⟨i, inColumns⟩))
    rw [found, own.2 i inColumns inRow value found]

/-- Where the properties have names of their own, all records get their values to the columns
exactly if no column answers to the property of another one. -/
theorem all_fillsOwn_iff (healthy : d.failure = none) (fresh : d.clause = .start)
    (room : d.HasRoom columns.length) (distinct : (e.columns.map (·.property)).Nodup)
    (inserts : e.Inserts xs columns) :
    (∀ record : Record, (record.map Prod.fst).Perm (e.columns.map (·.property)) →
      d.FillsOwn e xs columns record) ↔ e.TellsApart columns := by
  have awaits := inserting_awaitsRow healthy room inserts
  have columnsOf : (d.inserting e xs).insertColumns = columns.map (Expression.ofColumn e) :=
    inserts.listed
  have listed {names : List String} (perm : names.Perm (e.columns.map (·.property))) :
      ∀ c ∈ columns, c.property ∈ names := fun c mem =>
    perm.mem_iff.2 (List.mem_map_of_mem (inserts.own c mem))
  have accepted {names : List String} (perm : names.Perm (e.columns.map (·.property))) :
      ∀ x ∈ (d.inserting e xs).insertColumns, ∃ name ∈ names, x.answersTo name = true := by
    rw [columnsOf]
    intro x mem
    obtain ⟨c, inserted, rfl⟩ := List.mem_map.1 mem
    exact ⟨c.property, listed perm c inserted, Expression.answersTo_property _⟩
  constructor
  · intro fills c mem other owned answers
    by_contra differ
    -- the record that begins with the other property
    let names := other.property :: (e.columns.erase other).map (·.property)
    have perm : names.Perm (e.columns.map (·.property)) :=
      (List.perm_cons_erase owned).symm.map Column.property
    have takes (record : Record) (keys : record.map Prod.fst = names) :
        (d.inserting e xs).TakesOwn record := by
      refine (fillsOwn_iff healthy fresh inserts ?_).1 (fills record (keys ▸ perm))
      rw [keys]
      exact listed perm
    have first := (awaits.takesOwn_iff (accepted perm)).1 takes (Expression.ofColumn e c)
      (columnsOf ▸ List.mem_map_of_mem mem) (listed perm c mem)
    rw [List.find?_cons_of_pos answers] at first
    have same : other.property = c.property := Option.some.inj first
    exact differ (List.inj_on_of_nodup_map distinct owned (inserts.own c mem) same)
  · intro apart record perm
    refine (fillsOwn_iff healthy fresh inserts (listed perm)).2 ?_
    refine (awaits.takesOwn_iff (accepted perm)).2 ?_ record rfl
    rw [columnsOf]
    intro x mem listed
    obtain ⟨c, inserted, rfl⟩ := List.mem_map.1 mem
    have some := List.find?_isSome.2 ⟨_, listed, Expression.answersTo_property _⟩
    obtain ⟨name, first⟩ := Option.isSome_iff_exists.1 some
    obtain ⟨other, owned, rfl⟩ := List.mem_map.1 (perm.mem_iff.1 (List.mem_of_find?_eq_some first))
    have same : other = c := apart c inserted other owned (List.find?_some first)
    rw [first, same]
    rfl

end Draft

/-- A column takes the first entry of a record that stands under any spelling of its property. So,
whatever the values, every column with entries under the property's own name gets the first of them
exactly if no entry under another spelling stands before it; and a record of all properties, in any
order, fills each inserted column with its own property's value exactly if no inserted column
answers to the property of another column: by being named like it, or by its backing field. -/
theorem record_values_follow_spellings (d : Draft) :
    (∀ names : List String, d.AwaitsRow →
      (∀ x ∈ d.insertColumns, ∃ name ∈ names, x.answersTo name = true) →
      ((∀ record : Record, record.map Prod.fst = names → d.TakesOwn record) ↔
        ∀ x ∈ d.insertColumns, x.property ∈ names →
          names.find? x.answersTo = some x.property)) ∧
    ∀ (e : Entity) (xs : List Expression) (columns : List Column),
      d.failure = none → d.clause = .start → d.HasRoom columns.length →
      (e.columns.map (·.property)).Nodup → e.Inserts xs columns →
      ((∀ record : Record, (record.map Prod.fst).Perm (e.columns.map (·.property)) →
        d.FillsOwn e xs columns record) ↔ e.TellsApart columns) :=
  ⟨fun _ awaits accepted => awaits.takesOwn_iff accepted,
    fun _ _ _ healthy fresh room distinct inserts =>
      Draft.all_fillsOwn_iff healthy fresh room distinct inserts⟩

/-- Orders are filled from records in any order. -/
theorem record_values_follow_spellings_orders :
    let d := Draft.new .standard (.new true) {} []
    let record : Record := [("Amount", .decimal "7.5"), ("OrderID", .bigInt 1)]
    orders.TellsApart orders.columns ∧ d.FillsOwn orders [] orders.columns record ∧
      (d.inserting orders []).TakesOwn record := by
  intro d record
  have apart : orders.TellsApart orders.columns := by
    unfold Entity.TellsApart
    decide +kernel
  have inserts : orders.Inserts [] orders.columns :=
    ⟨⟨by decide, rfl⟩, rfl, by decide, fun _ => id, by decide⟩
  have awaits : (d.inserting orders []).AwaitsRow := ⟨rfl, rfl, .inl rfl⟩
  obtain ⟨-, columns⟩ := record_values_follow_spellings d
  obtain ⟨general, -⟩ := record_values_follow_spellings (d.inserting orders [])
  refine ⟨apart, ?_, ?_⟩
  · exact (columns orders [] orders.columns rfl rfl (.inl rfl) (by decide) inserts).2 apart
      record (by decide)
  · exact (general ["Amount", "OrderID"] awaits (by decide +kernel)).2
      (by decide +kernel) record rfl

def crossed : Entity where
  name := "Swap"
  table := "Swap"
  columns := [⟨"A", "B", .text, none, .all, false⟩, ⟨"B", "A", .text, none, .all, false⟩]

/-- The record that begins with the second property fills both columns with its value. -/
theorem crossed_column_takes_other_value :
    let record : Record := [("B", .integer 2), ("A", .integer 1)]
    (record.map Prod.fst).Perm (crossed.columns.map (·.property)) ∧
      (crossed.columns.map (·.property)).Nodup ∧
      record.lookup "A" = some (.integer 1) ∧
      ((Draft.new .standard (.new true) {} []).build
          [.insert crossed [], .valuesRecord record]).1.map
        (fun c => (c.sql, c.parameters.map (·.value))) =
        .ok ("INSERT INTO Swap (B, A) VALUES (@p1, @p2)", [.integer 2, .integer 2]) := by
  decide +kernel

end DmlCompiler
