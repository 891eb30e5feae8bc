import DmlCompiler.Proofs.Build.Finishing
import DmlCompiler.Proofs.Records
import DmlCompiler.Proofs.Rendering.Calls

/-! # The rows of an insert

The names in the column list, the columns that are kept for the rows, and the values of the rows are
three lists. Every row has a value for each column that is kept. The names are those of the columns
that have one: a wildcard of the entity passes for a column and has none. -/
namespace DmlCompiler

open Build Sql

variable {d d' : Draft} {e : Entity} {xs columns : List Expression} {row : List SqlValue}
  {rows : List (List SqlValue)} {u : Unit}

def Call.row? (columns : List Expression) : Call → Option (List SqlValue)
  | .values row => some row
  | .valuesRecord record => columns.mapM (recordValue? record)
  | _ => none

def Call.isRow : Call → Bool
  | .values _ | .valuesRecord _ => true
  | _ => false

namespace Build

theorem bindCells_eq {list : List Sql} (fits : row.length = columns.length)
    (given : Gives ((row.zip columns).mapM fun cell => bindValue cell.2.column cell.1) d list d') :
    list = row.mapIdx (fun i _ => [.place (d.parameters.length + i + 1)]) ∧
      d' = d.bound (Draft.cells row columns) := by
  have each (cell : SqlValue × Expression) ⦃d : Draft⦄ ⦃sql : Sql⦄ ⦃d' : Draft⦄
      (bound : Gives (bindValue cell.2.column cell.1) d sql d') :
      sql = [.place (d.parameters.length + 1)] ∧
        d' = d.bound [.ofColumn cell.2.column cell.1] := bindValue_binds bound
  obtain ⟨rfl, rfl⟩ := mapM_binds (fun _ number => [.place number]) each given
  constructor
  · apply List.ext_getElem
    · simp [fits]
    · simp
  · congr 1
    apply List.ext_getElem
    · simp [Draft.cells]
    · simp [Draft.cells]

/-- A row that is taken has a value for each of the columns. -/
theorem appendRow_eq (given : Gives (appendRow row) d u d') :
    row.length = d.insertColumns.length ∧ d' = d.withRow row := by
  rw [appendRow, gives_get_bind] at given
  by_cases fits : row.length = d.insertColumns.length
  · rw [if_neg (not_not.2 fits)] at given
    obtain ⟨list, d₁, bound, given⟩ := gives_bind.1 given
    obtain ⟨rfl, rfl⟩ := bindCells_eq fits bound
    obtain ⟨_, d₂, wrote, moved⟩ := gives_bind.1 given
    obtain rfl := gives_modify.1 wrote
    obtain rfl := gives_modify.1 moved
    exact ⟨fits, rfl⟩
  · rw [if_pos fits] at given
    exact (keeps_throw_bind (r := fun _ _ => False) _ _ given).elim

theorem orFail_mapM_eq {α ι : Type} {f : ι → Option α} {e : ι → QueryError} :
    ∀ {is : List ι} {as : List α} {d d' : Draft},
      Gives (is.mapM fun i => orFail (f i) (e i)) d as d' → is.mapM f = some as ∧ d' = d
  | [], as, d, d', given => by
    obtain ⟨rfl, rfl⟩ := gives_pure.1 given
    exact ⟨rfl, rfl⟩
  | i :: is, as, d, d', given => by
    rw [List.mapM_cons] at given
    obtain ⟨a, d₁, found, given⟩ := gives_bind.1 given
    obtain ⟨rest, d₂, later, given⟩ := gives_bind.1 given
    obtain ⟨rfl, rfl⟩ := gives_pure.1 given
    cases here : f i with
    | none =>
      rw [here] at found
      exact (gives_throw.1 found).elim
    | some b =>
      rw [here] at found
      obtain ⟨rfl, rfl⟩ := gives_pure.1 found
      obtain ⟨all, rfl⟩ := orFail_mapM_eq later
      rw [List.mapM_cons, here, all]
      exact ⟨rfl, rfl⟩

theorem checkColumns_eq : ∀ {columns : List Expression} {d d' : Draft},
    d.target = some e →
    Gives (columns.forM fun x => do checkColumn x; x.checkPermission .insert) d u d' →
    d' = d ∧ ∀ x ∈ columns, x.entity = e.name ∧ x.isEmpty = false
  | [], d, d', _, given => ⟨(gives_pure.1 given).2, List.forall_mem_nil _⟩
  | x :: columns, d, d', target, given => by
    obtain ⟨_, d₁, first, rest⟩ := gives_bind.1 given
    obtain ⟨_, d₂, checked, permitted⟩ := gives_bind.1 first
    obtain rfl := x.checkPermission_keeps (r := Eq) .insert permitted
    rw [checkColumn, gives_get_bind, target] at checked
    dsimp only at checked
    split at checked
    · exact (gives_throw.1 checked).elim
    · next passes =>
      obtain ⟨-, rfl⟩ := gives_pure.1 checked
      rw [not_or] at passes
      obtain ⟨rfl, own⟩ := checkColumns_eq target rest
      refine ⟨rfl, List.forall_mem_cons.2 ⟨?_, own⟩⟩
      exact ⟨by simpa using passes.2, by simpa using passes.1⟩

/-- An insert that is taken has columns, and each of them belongs to the entity by name. -/
theorem insertInto_eq (given : Gives (insertInto e xs) d u d') :
    insertList e xs ≠ [] ∧ (∀ x ∈ insertList e xs, x.entity = e.name ∧ x.isEmpty = false) ∧
      d' = d.inserting e xs := by
  obtain ⟨_, d₁, expected, afterExpect⟩ := gives_bind.1 given
  obtain ⟨-, rfl⟩ := expect_gives expected
  obtain ⟨_, d₂, checked, afterCheck⟩ := gives_bind.1 afterExpect
  obtain rfl := checkTarget_gives checked
  obtain ⟨_, d₃, targeted, afterTarget⟩ := gives_bind.1 afterCheck
  obtain rfl := gives_modify.1 targeted
  obtain ⟨_, d₄, permitted, afterColumns⟩ := gives_bind.1 afterTarget
  obtain ⟨rfl, own⟩ := checkColumns_eq rfl permitted
  by_cases listed : insertList e xs = []
  · rw [listed] at afterColumns
    exact (keeps_throw_bind (r := fun _ _ => False) _ _ afterColumns).elim
  · rw [if_neg (by simpa using listed)] at afterColumns
    obtain ⟨_, d₅, wrote, afterText⟩ := gives_bind.1 afterColumns
    obtain rfl := gives_modify.1 wrote
    obtain ⟨_, d₆, kinded, moved⟩ := gives_bind.1 afterText
    obtain rfl := gives_modify.1 kinded
    obtain rfl := gives_modify.1 moved
    exact ⟨listed, own, rfl⟩

end Build

/-- A call for a row that is taken has a value for each of the columns, and writes these. -/
theorem Call.isRow_call {c : Call} (isRow : c.isRow = true) (called : d.call c = (.ok (), d')) :
    ∃ row, c.row? d.insertColumns = some row ∧ row.length = d.insertColumns.length ∧
      d' = d.withRow row := by
  obtain ⟨-, made⟩ := gives_guarded.1 called
  cases c <;> try cases isRow
  case values row =>
    obtain ⟨_, d₁, expected, appended⟩ := gives_bind.1 made
    obtain ⟨-, rfl⟩ := expect_gives expected
    exact ⟨row, rfl, appendRow_eq appended⟩
  case valuesRecord record =>
    obtain ⟨_, d₁, expected, afterExpect⟩ := gives_bind.1 made
    obtain ⟨-, rfl⟩ := expect_gives expected
    rw [gives_get_bind] at afterExpect
    obtain ⟨row, d₂, found, appended⟩ := gives_bind.1 afterExpect
    obtain ⟨all, rfl⟩ := orFail_mapM_eq found
    exact ⟨row, all, appendRow_eq appended⟩

namespace Sql

/-- The places of a row that begins behind so many parameters. -/
def rowPlaces (width before : Nat) : Sql :=
  (join ", " ((List.range width).map fun j => [.place (before + j + 1)])).parenthesize

def rowsPlaces (width before count : Nat) : Sql :=
  join ", " ((List.range count).map fun i => rowPlaces width (before + i * width))

theorem join_snoc (separator : String) {fragments : List Sql} (some : fragments ≠ [])
    (sql : Sql) :
    join separator (fragments ++ [sql]) =
      join separator fragments ++ ofString separator ++ sql := by
  induction fragments with
  | nil => exact absurd rfl some
  | cons first rest ih =>
    cases rest with
    | nil => simp [join, List.intercalate_cons_cons, List.intercalate_singleton]
    | cons next rest =>
      have later := ih (List.cons_ne_nil next rest)
      unfold join at later ⊢
      rw [List.cons_append, List.cons_append, List.intercalate_cons_cons, ← List.cons_append, later,
        List.intercalate_cons_cons]
      simp

theorem rowsPlaces_succ (width before count : Nat) (some : count ≠ 0) :
    rowsPlaces width before (count + 1) = rowsPlaces width before count ++ ofString ", " ++
      rowPlaces width (before + count * width) := by
  rw [rowsPlaces, List.range_succ, List.map_append, List.map_singleton, join_snoc]
  · rfl
  · simpa using some

theorem rowsPlaces_one (width before : Nat) :
    rowsPlaces width before 1 = rowPlaces width before := by
  simp [rowsPlaces, join]

end Sql

namespace Draft

def withRows (d : Draft) (rows : List (List SqlValue)) : Draft :=
  rows.foldl withRow d

theorem run_rows : ∀ {calls : List Call} {d d' : Draft}, (∀ c ∈ calls, c.isRow = true) →
    d.run calls = (.ok (), d') →
    ∃ rows, List.Forall₂ (fun c row => c.row? d.insertColumns = some row) calls rows ∧
      (∀ row ∈ rows, row.length = d.insertColumns.length) ∧ d' = d.withRows rows
  | [], d, d', _, ran => ⟨[], .nil, List.forall_mem_nil _, (Prod.mk.inj ran).2.symm⟩
  | c :: calls, d, d', isRow, ran => by
    rw [run_cons] at ran
    rcases called : d.call c with ⟨_ | ⟨⟩, d₁⟩
    · rw [called] at ran
      cases ran
    · rw [called] at ran
      obtain ⟨row, given, fits, rfl⟩ := Call.isRow_call (isRow c List.mem_cons_self) called
      obtain ⟨rows, all, even, rfl⟩ :=
        run_rows (fun other mem => isRow other (List.mem_cons_of_mem c mem)) ran
      exact ⟨row :: rows, .cons given all, List.forall_mem_cons.2 ⟨fits, even⟩, rfl⟩

def allCells (rows : List (List SqlValue)) (columns : List Expression) : List Binding :=
  rows.flatMap fun row => cells row columns

theorem cells_length (fits : row.length = columns.length) :
    (cells row columns).length = columns.length := by
  rw [cells, List.length_zipWith, fits, Nat.min_self]

theorem allCells_length (even : ∀ row ∈ rows, row.length = columns.length) :
    (allCells rows columns).length = rows.length * columns.length := by
  induction rows with
  | nil => simp [allCells]
  | cons row rows ih =>
    have first := cells_length (even row List.mem_cons_self)
    have rest := ih fun other mem => even other (List.mem_cons_of_mem row mem)
    rw [allCells, List.flatMap_cons, List.length_append, first]
    rw [allCells] at rest
    rw [rest, List.length_cons, Nat.succ_mul, Nat.add_comm]

theorem allCells_getElem? {i j : Nat} (even : ∀ row ∈ rows, row.length = columns.length)
    (listed : rows[i]? = some row) (inside : j < columns.length) :
    (allCells rows columns)[i * columns.length + j]? = (cells row columns)[j]? := by
  induction rows generalizing i with
  | nil => cases listed
  | cons first rows ih =>
    have width := cells_length (even first List.mem_cons_self)
    rw [allCells, List.flatMap_cons]
    cases i with
    | zero =>
      cases listed
      rw [Nat.zero_mul, Nat.zero_add, List.getElem?_append_left (by omega)]
    | succ i =>
      have behind : (i + 1) * columns.length + j = (cells first columns).length +
          (i * columns.length + j) := by
        rw [width, Nat.succ_mul]
        omega
      rw [behind, List.getElem?_append_right (Nat.le_add_right _ _), Nat.add_sub_cancel_left]
      exact ih (fun other mem => even other (List.mem_cons_of_mem first mem)) listed

def carrying (d : Draft) (bs : List Binding) (sql : Sql) : Draft :=
  { d.bound bs with sql := sql, clause := .values }

@[simp] theorem carrying_sql (d : Draft) (bs : List Binding) (sql : Sql) :
    (d.carrying bs sql).sql = sql := rfl

@[simp] theorem carrying_clause (d : Draft) (bs : List Binding) (sql : Sql) :
    (d.carrying bs sql).clause = .values := rfl

@[simp] theorem carrying_insertColumns (d : Draft) (bs : List Binding) (sql : Sql) :
    (d.carrying bs sql).insertColumns = d.insertColumns := rfl

@[simp] theorem carrying_count (d : Draft) (bs : List Binding) (sql : Sql) :
    (d.carrying bs sql).parameters.length = d.parameters.length + bs.length :=
  (d.gains_bound bs).count

theorem carrying_carrying (d : Draft) (bs cs : List Binding) (before sql : Sql) :
    (d.carrying bs before).carrying cs sql = d.carrying (bs ++ cs) sql := by
  rw [carrying, carrying, carrying, ← bound_append]
  rfl

theorem withRow_eq (d : Draft) (fits : row.length = d.insertColumns.length) :
    d.withRow row = d.carrying (cells row d.insertColumns) (d.sql ++
      (ofString (if d.clause = .values then ", " else " VALUES ") ++
        rowPlaces d.insertColumns.length d.parameters.length)) := by
  have places : row.mapIdx (fun i _ => [Symbol.place (d.parameters.length + i + 1)]) =
      (List.range d.insertColumns.length).map
        fun j => [Symbol.place (d.parameters.length + j + 1)] := by
    apply List.ext_getElem
    · simp [fits]
    · simp
  rw [withRow, places]
  rfl

theorem withRows_eq (bare : d.clause = .insert)
    (even : ∀ row ∈ rows, row.length = d.insertColumns.length) (some : rows ≠ []) :
    d.withRows rows = d.carrying (allCells rows d.insertColumns) (d.sql ++ (ofString " VALUES " ++
      rowsPlaces d.insertColumns.length d.parameters.length rows.length)) := by
  induction rows using List.reverseRecOn with
  | nil => exact absurd rfl some
  | append_singleton rows row ih =>
    have fits : row.length = d.insertColumns.length := even row (by simp)
    have evenBefore : ∀ row ∈ rows, row.length = d.insertColumns.length :=
      fun other mem => even other (List.mem_append_left _ mem)
    have one : d.withRows (rows ++ [row]) = (d.withRows rows).withRow row := List.foldl_append
    have all : allCells (rows ++ [row]) d.insertColumns =
        allCells rows d.insertColumns ++ cells row d.insertColumns := by
      simp [allCells]
    rw [one, all, List.length_append, List.length_singleton]
    by_cases none : rows = []
    · subst none
      rw [withRows, List.foldl_nil, withRow_eq d fits, bare, List.length_nil, Nat.zero_add,
        rowsPlaces_one]
      rfl
    · have count := allCells_length evenBefore
      rw [ih evenBefore none, withRow_eq (d.carrying _ _) fits, carrying_carrying]
      simp only [carrying_sql, carrying_clause, carrying_insertColumns, carrying_count, count,
        if_true, rowsPlaces_succ _ _ _ (List.length_pos_of_ne_nil none).ne', List.append_assoc]

theorem bound_getElem? (d : Draft) (bs : List Binding) (i : Nat) :
    (d.bound bs).parameters[d.parameters.length + i]? = bs[i]?.map fun b =>
      ⟨d.dialect.parameterName (d.parameters.length + i + 1), b.value, b.type, b.size⟩ := by
  rw [bound, List.getElem?_append_right (Nat.le_add_right _ _), Nat.add_sub_cancel_left,
    List.getElem?_mapIdx]

end Draft

def insertNames (columns : List Expression) : List String :=
  columns.filterMap fun x => x.column.map (·.column)

theorem insertNames_eq (named : ∀ x ∈ columns, x.column.isSome = true) :
    (insertNames columns).map some = columns.map fun x => x.column.map (·.column) := by
  rw [insertNames, List.map_filterMap_some_eq_filter_map_isSome, List.filter_eq_self]
  intro name mem
  obtain ⟨x, listed, rfl⟩ := List.mem_map.1 mem
  simpa using named x listed

theorem insertNames_length_lt (unnamed : ∃ x ∈ columns, x.column = none) :
    (insertNames columns).length < columns.length := by
  obtain ⟨x, listed, none⟩ := unnamed
  exact List.length_filterMap_lt_length_iff_exists.2 ⟨x, listed, by rw [none]; rfl⟩

/-- The columns of an insert without a list of its own are those of the entity. -/
theorem insertList_named (named : ∀ x ∈ xs, x.column.isSome = true) :
    ∀ x ∈ insertList e xs, x.column.isSome = true := by
  rw [insertList]
  split
  · intro x mem
    obtain ⟨c, -, rfl⟩ := List.mem_map.1 mem
    rfl
  · exact named

namespace Draft

/-- The draft is an insert of the rows for the columns: all rows are as long as the columns are
many, and what stands in a row for a column is the value of its parameter, with the type of the
column. -/
structure HoldsRows (d : Draft) (e : Entity) (columns : List Expression)
    (rows : List (List SqlValue)) : Prop where
  some : columns ≠ []
  even : ∀ row ∈ rows, row.length = columns.length
  sql : d.sql = ofString s!"INSERT INTO {e.table} (" ++
    join ", " ((insertNames columns).map ofString) ++ ofString ")" ++
    if rows = [] then [] else ofString " VALUES " ++ rowsPlaces columns.length 0 rows.length
  count : d.parameters.length = rows.length * columns.length
  cell : ∀ (i j : Nat) (row : List SqlValue) (x : Expression) (value : SqlValue),
    rows[i]? = Option.some row → columns[j]? = Option.some x → row[j]? = Option.some value →
    d.parameters[i * columns.length + j]? =
      Option.some ⟨d.dialect.parameterName (i * columns.length + j + 1), value,
        x.column.map (·.type), x.column.bind (·.size)⟩

variable {dialect : Dialect} {registry : Registry} {options : Options} {cache : SelectCache}

/-- The rows that are added to an insert are what it holds. -/
theorem inserting_holdsRows (some : insertList e xs ≠ [])
    (even : ∀ row ∈ rows, row.length = (insertList e xs).length) :
    (((new dialect registry options cache).inserting e xs).withRows rows).HoldsRows e
      (insertList e xs) rows := by
  let d := (new dialect registry options cache).inserting e xs
  by_cases none : rows = []
  · subst none
    refine ⟨some, even, ?_, ?_, fun i j row x value listed => ?_⟩
    · rw [if_pos rfl, List.append_nil]
      rfl
    · rw [List.length_nil, Nat.zero_mul]
      rfl
    · rw [List.getElem?_nil] at listed
      cases listed
  · have written := withRows_eq (d := d) rfl even none
    have bound : (d.withRows rows).parameters =
        (d.bound (allCells rows (insertList e xs))).parameters := by
      rw [written]
      rfl
    have same : (d.withRows rows).dialect = d.dialect := by
      rw [written]
      rfl
    refine ⟨some, even, ?_, ?_, fun i j row x value listed column cell => ?_⟩
    · rw [if_neg none, written]
      rfl
    · rw [bound, (d.gains_bound _).count, allCells_length even]
      exact Nat.zero_add _
    · have inside : j < (insertList e xs).length := (List.getElem?_eq_some_iff.1 column).1
      have at_place := d.bound_getElem? (allCells rows (insertList e xs))
        (i * (insertList e xs).length + j)
      have none_before : d.parameters.length = 0 := rfl
      rw [allCells_getElem? even listed inside, cells, List.getElem?_zipWith, cell, column,
        none_before, Nat.zero_add] at at_place
      rw [bound, at_place, same]
      rfl

theorem inserting_toCommand (even : ∀ row ∈ rows, row.length = (insertList e xs).length)
    (some : rows ≠ []) {d : Draft}
    (rowed : d = ((new dialect registry options cache).inserting e xs).withRows rows) :
    d.toCommand.1 = .ok ⟨Command.anonymous, d.sql.text dialect, d.parameters, .insert, none⟩ := by
  rw [withRows_eq (d := (new dialect registry options cache).inserting e xs) rfl even some] at rowed
  subst rowed
  rw [toCommand_eq_finished rfl]
  have plain (sql : Sql) : sql ++ ofString "" ++ ofString "" = sql := by simp [ofString]
  show Except.ok (Command.mk Command.anonymous
    ((_ ++ ofString "" ++ ofString "" : Sql).text dialect) _ .insert none) = _
  rw [plain]

end Draft

/-- An insert that is taken, and every row that is taken behind it, has a column for every value:
the text has as many places in each row as there are columns in the list of the insert, the values
stand there in the order of these columns, and each has the type of its own. The names in the text
are those of the columns if all properties in the list have one. A property without a column passes
if it is a wildcard of the entity, and then the names are fewer than the places. -/
theorem rows_follow_kept_columns (dialect : Dialect) (registry : Registry) (options : Options)
    (cache : SelectCache) (e : Entity) (xs : List Expression) (calls : List Call) (d : Draft)
    (isRow : ∀ c ∈ calls, c.isRow = true)
    (ran : (Draft.new dialect registry options cache).run (.insert e xs :: calls) = (.ok (), d)) :
    (∃ rows, List.Forall₂ (fun c row => c.row? (insertList e xs) = some row) calls rows ∧
      d.HoldsRows e (insertList e xs) rows) ∧
    (calls ≠ [] → d.toCommand.1 =
      .ok ⟨Command.anonymous, d.sql.text dialect, d.parameters, .insert, none⟩) ∧
    ((∀ x ∈ xs, x.column.isSome = true) → (insertNames (insertList e xs)).map some =
      (insertList e xs).map fun x => x.column.map (·.column)) ∧
    ∀ x ∈ xs, x.column = none → x.entity = e.name ∧ x.isWildcard = true ∧
      (insertNames (insertList e xs)).length < (insertList e xs).length := by
  rw [Draft.run_cons] at ran
  rcases inserted : (Draft.new dialect registry options cache).call (.insert e xs) with ⟨_ | u, d₁⟩
  · rw [inserted] at ran
    cases ran
  · rw [inserted] at ran
    obtain ⟨some, own, rfl⟩ := insertInto_eq (gives_guarded.1 inserted).2
    obtain ⟨rows, given, even, rowed⟩ := Draft.run_rows isRow ran
    refine ⟨⟨rows, given, ?_⟩, fun called => ?_, fun named => ?_, fun x listed none => ?_⟩
    · rw [rowed]
      exact Draft.inserting_holdsRows some even
    · refine Draft.inserting_toCommand even ?_ rowed
      rintro rfl
      cases given
      exact called rfl
    · exact insertNames_eq (insertList_named named)
    · have mem : x ∈ insertList e xs := mem_insertList listed
      obtain ⟨entity, found⟩ := own x mem
      refine ⟨entity, ?_, insertNames_length_lt ⟨x, mem, none⟩⟩
      simpa [Expression.isEmpty, none] using found

def orderWildcard : Expression := .bare "Order" Expression.wildcardName none

/-- Two orders. -/
theorem rows_follow_kept_columns_orders :
    let calls : List Call :=
      [.values [.bigInt 1, .decimal "7.5"], .values [.bigInt 2, .null]]
    ∃ d, (Draft.new .standard (.new true) {} []).run (.insert orders [] :: calls) = (.ok (), d) ∧
      d.HoldsRows orders (insertList orders []) [[.bigInt 1, .decimal "7.5"], [.bigInt 2, .null]] ∧
      d.toCommand.1.map (·.sql) =
        .ok "INSERT INTO Orders (OrderID, Amount) VALUES (@p1, @p2), (@p3, @p4)" := by
  intro calls
  have taken : ((Draft.new .standard (.new true) {} []).run (.insert orders [] :: calls)).1 =
      .ok () := by decide +kernel
  have text : ((Draft.new .standard (.new true) {} []).run
      (.insert orders [] :: calls)).2.toCommand.1.map (·.sql) =
        .ok "INSERT INTO Orders (OrderID, Amount) VALUES (@p1, @p2), (@p3, @p4)" := by
    decide +kernel
  rcases ran : (Draft.new .standard (.new true) {} []).run (.insert orders [] :: calls) with ⟨_, d⟩
  rw [ran] at taken text
  obtain rfl := taken
  have isRow : ∀ c ∈ calls, c.isRow = true := by decide +kernel
  obtain ⟨⟨rows, given, holds⟩, -⟩ :=
    rows_follow_kept_columns .standard (.new true) {} [] orders [] calls d isRow ran
  unfold calls at given
  obtain _ | ⟨first, _ | ⟨second, _ | _⟩⟩ := given
  cases first
  cases second
  exact ⟨d, rfl, holds, text⟩

/-- The wildcard is no name in the list, and it has a place in the row. -/
theorem wildcard_without_name_inserted :
    orderWildcard.entity = orders.name ∧ orderWildcard.isEmpty = false ∧
      ((Draft.new .standard (.new true) {} []).build
          [.insert orders [amount, orderWildcard], .values [.integer 1, .integer 2]]).1.map
        (fun c => (c.sql, c.parameters.map (·.value))) =
        .ok ("INSERT INTO Orders (Amount) VALUES (@p1, @p2)", [.integer 1, .integer 2]) := by
  decide +kernel

end DmlCompiler
