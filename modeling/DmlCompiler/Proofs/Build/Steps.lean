import DmlCompiler.Proofs.Frame

/-! # The steps that calls are made of

A call changes a draft step by step, and there are few kinds of steps. A relation on drafts that
holds over each kind is kept by every call, and one that holds over those within a statement by the
calls that do not begin one. No call moves a draft to other surroundings. -/
namespace DmlCompiler

open Build

structure Draft.HoldsWithin (r : Draft → Draft → Prop) : Prop where
  appends {d d' : Draft} : d.Appends d' → r d d'
  write (d : Draft) (sql : Sql) : r d { d with sql := d.sql ++ sql }
  clause (d : Draft) (clause : Clause) : r d { d with clause := clause }
  selected (d : Draft) (xs : List Expression) : r d { d with selected := xs }
  listPending (d : Draft) (pending : Bool) : r d { d with listPending := pending }
  rowLimit (d : Draft) (limit : Option UInt64) : r d { d with rowLimit := limit }
  page (d : Draft) (page : Option Page) : r d { d with page := page }
  target (d : Draft) (e : Option Entity) : r d { d with target := e }
  /-- Behind a union there are no conditions yet. -/
  closed (d : Draft) : r d { d with whereOpen := false, havingOpen := false }
  condition (d : Draft) (x : Expression) (sql : Sql) : r d
    { d with
      whereOpen := true
      sql := d.sql ++ (Sql.ofString (opener " WHERE (" (!d.whereOpen) x) ++ sql ++
        Sql.ofString ")") }
  groupCondition (d : Draft) (x : Expression) (sql : Sql) : r d
    { d with
      havingOpen := true
      sql := d.sql ++ (Sql.ofString (opener " HAVING (" (!d.havingOpen) x) ++ sql ++
        Sql.ofString ")") }

structure Draft.HoldsOverSteps (r : Draft → Draft → Prop) : Prop extends HoldsWithin r where
  kind (d : Draft) (kind : StatementKind) : r d { d with kind := kind }
  insertColumns (d : Draft) (xs : List Expression) : r d { d with insertColumns := xs }

section Steps

variable {α : Type} {r : Draft → Draft → Prop} {compile : Query → Build Command}

namespace Draft.HoldsWithin

variable (h : HoldsWithin r)

include h in
theorem fragment {x : Build α} (hx : Keeps Appends x) : Keeps r x := hx.mono fun _ _ => h.appends

include h in
theorem written (sql : Sql) : Keeps r (Build.write sql) := keeps_modify fun d => h.write d sql

include h in
theorem movedTo (clause : Clause) : Keeps r (moveTo clause) := keeps_modify fun d => h.clause d clause

include h in
theorem listWritten (list : List Sql) : Keeps r (writeList list) := by
  cases list with
  | nil => exact keeps_modify fun d => h.listPending d true
  | cons sql list => exact h.written _

variable [IsPreorder Draft r]

theorem permissionChecked (e : Entity) (kind : StatementKind) : Keeps r (checkPermission e kind) :=
  .ite (keeps_pure ()) (keeps_throw _)

theorem columnChecked (x : Expression) : Keeps r (checkColumn x) :=
  keeps_get.bind fun _ => .ite (keeps_throw _) (keeps_pure ())

include h

theorem limited (limit : Option UInt64) : Keeps r (limitRows limit) := by
  cases limit with
  | none => exact keeps_pure ()
  | some limit =>
    intro d u d' given
    rw [limitRows, gives_get_bind] at given
    split at given
    · rw [gives_set.1 given]
      exact h.rowLimit d (some limit)
    · exact (gives_throw.1 given).elim

theorem projected (x : Expression) : Keeps r (select1 compile x) := by
  refine (h.fragment x.projection_appends).bind fun sql => ?_
  exact Keeps.bind (keeps_modify fun d => h.selected d _) fun _ => keeps_pure sql

theorem pendingListWritten (e : Entity) : Keeps r (writePendingList e) := by
  refine keeps_get.bind fun _ => .ite ?_ (keeps_pure ())
  refine (h.fragment (defaultList_appends e)).bind fun list => ?_
  exact (h.written _).bind fun _ => keeps_modify fun d => h.listPending d false

theorem fromEntity (e : Entity) : Keeps r (Build.fromEntity e) := by
  refine (keeps_expect .from).bind fun _ => ?_
  refine (permissionChecked e .select).bind fun _ => ?_
  refine (h.pendingListWritten e).bind fun _ => ?_
  refine (h.written _).bind fun _ => ?_
  exact Keeps.bind (keeps_modify fun d => h.target d (some e)) fun _ => h.movedTo .from

theorem joinEntity (kind : JoinKind) (e : Entity) (on : Option Expression) :
    Keeps r (Build.joinEntity compile kind e on) := by
  refine (keeps_expect .join).bind fun _ => ?_
  refine (permissionChecked e .select).bind fun _ => ?_
  refine (h.fragment (onClause_appends kind e on)).bind fun condition => ?_
  exact (h.written _).bind fun _ => h.movedTo .join

theorem filterBy (x : Expression) : Keeps r (Build.filterBy compile x) := by
  refine (keeps_expect .where).bind fun _ => ?_
  refine (h.fragment x.predicate_appends).bind fun sql => ?_
  refine Keeps.bind (.ite ?_ (keeps_pure ())) fun _ => h.movedTo .where
  intro d u d' given
  rw [gives_get_bind] at given
  obtain ⟨_, d₁, opened, wrote⟩ := gives_bind.1 given
  obtain rfl := gives_modify.1 opened
  obtain rfl := gives_modify.1 wrote
  exact h.condition d x sql

theorem havingBy (x : Expression) : Keeps r (Build.havingBy compile x) := by
  refine (keeps_expect .having).bind fun _ => ?_
  refine (h.fragment x.predicate_appends).bind fun sql => ?_
  refine Keeps.bind (.ite ?_ (keeps_pure ())) fun _ => h.movedTo .having
  intro d u d' given
  rw [gives_get_bind] at given
  obtain ⟨_, d₁, opened, wrote⟩ := gives_bind.1 given
  obtain rfl := gives_modify.1 opened
  obtain rfl := gives_modify.1 wrote
  exact h.groupCondition d x sql

theorem groupBy (xs : List Expression) : Keeps r (Build.groupBy xs) := by
  refine (keeps_expect .groupBy).bind fun _ => ?_
  refine (keeps_mapM (fun x => h.fragment x.reference_appends) _).bind fun list => ?_
  refine (nonEmptyList_keeps .groupBy list).bind fun sql => ?_
  exact (h.written _).bind fun _ => h.movedTo .groupBy

theorem orderBy (xs : List Expression) : Keeps r (Build.orderBy xs) := by
  refine (keeps_expect .orderBy).bind fun _ => ?_
  refine (keeps_mapM (fun x => h.fragment (sortKey_appends x)) _).bind fun list => ?_
  refine (nonEmptyList_keeps .orderBy list).bind fun sql => ?_
  exact keeps_get.bind fun _ => (h.written _).bind fun _ => h.movedTo .orderBy

theorem appendRow (row : List SqlValue) : Keeps r (Build.appendRow row) := by
  refine keeps_get.bind fun d => .ite (keeps_throw_bind _ _) ?_
  refine (keeps_mapM (fun entry => ?_) _).bind fun list => ?_
  · exact h.fragment (bindValue_appends entry.2.column entry.1)
  · exact (h.written _).bind fun _ => h.movedTo .values

theorem valuesRow (row : List SqlValue) : Keeps r (Build.valuesRow row) :=
  (keeps_expect .values).bind fun _ => h.appendRow row

theorem valuesRecord (record : Record) : Keeps r (Build.valuesRecord record) := by
  refine (keeps_expect .values).bind fun _ => keeps_get.bind fun d => ?_
  exact (keeps_mapM (fun x => keeps_orFail _ _) _).bind fun row => h.appendRow row

theorem setColumn (x : Expression) (operation : UpdateOperation) :
    Keeps r (Build.setColumn x operation) := by
  refine (keeps_expect .set).bind fun _ => ?_
  refine (columnChecked x).bind fun _ => ?_
  refine (x.checkPermission_keeps .update).bind fun _ => ?_
  refine (keeps_orFail x.column _).bind fun column => ?_
  refine (h.fragment (bindValue_appends (some column) operation.value)).bind fun sql => ?_
  exact keeps_get.bind fun _ => (h.written _).bind fun _ => h.movedTo .set

theorem unionWith (keyword : String) : Keeps r (Build.unionWith keyword) := by
  refine (keeps_expect .union).bind fun _ => ?_
  refine (h.written _).bind fun _ => ?_
  refine Keeps.bind (keeps_modify fun d => ?_) fun _ => h.movedTo .union
  exact IsTrans.trans _ _ _ (h.closed d) (h.target _ none)

end Draft.HoldsWithin

namespace Draft.HoldsOverSteps

variable [IsPreorder Draft r] (h : HoldsOverSteps r)

theorem targetChecked (e : Entity) (kind : StatementKind) : Keeps r (checkTarget e kind) :=
  .ite (keeps_throw_bind _ _) (HoldsWithin.permissionChecked e kind)

include h

theorem selectBlock (xs : List Expression) (distinct : Bool) (limit : Option UInt64) :
    Keeps r (Build.selectBlock compile xs distinct limit) := by
  refine (keeps_expect .select).bind fun _ => ?_
  refine (h.limited limit).bind fun _ => ?_
  refine Keeps.bind (keeps_modify fun d => h.kind d .select) fun _ => ?_
  refine (h.written _).bind fun _ => ?_
  refine (keeps_mapM h.projected _).bind fun list => ?_
  exact (h.listWritten list).bind fun _ => h.movedTo .select

theorem insertInto (e : Entity) (xs : List Expression) : Keeps r (Build.insertInto e xs) := by
  refine (keeps_expect .insert).bind fun _ => ?_
  refine (targetChecked e .insert).bind fun _ => ?_
  refine Keeps.bind (keeps_modify fun d => h.target d (some e)) fun _ => ?_
  refine (keeps_forM (fun x => ?_) _).bind fun _ => ?_
  · exact (HoldsWithin.columnChecked x).bind fun _ => x.checkPermission_keeps .insert
  · refine .ite (keeps_throw_bind _ _) ?_
    refine (h.written _).bind fun _ => ?_
    refine Keeps.bind (keeps_modify fun d => ?_) fun _ => h.movedTo .insert
    exact IsTrans.trans _ _ _ (h.kind d .insert) (h.insertColumns _ _)

theorem beginWith (clause : Clause) (kind : StatementKind) (keyword : String) (e : Entity) :
    Keeps r (Build.beginWith clause kind keyword e) := by
  refine (keeps_expect clause).bind fun _ => ?_
  refine (targetChecked e kind).bind fun _ => ?_
  refine (h.written _).bind fun _ => ?_
  refine Keeps.bind (keeps_modify fun d => ?_) fun _ => h.movedTo clause
  exact IsTrans.trans _ _ _ (h.kind d kind) (h.target _ (some e))

theorem make (c : Call) : Keeps r (c.make compile) := by
  cases c with
  | select xs => exact h.selectBlock xs false none
  | selectDistinct xs => exact h.selectBlock xs true none
  | selectLimit limit => exact h.selectBlock [] false (some limit)
  | selectPropertiesLimit xs limit => exact h.selectBlock xs false (some limit)
  | «from» e => exact h.fromEntity e
  | join kind e on => exact h.joinEntity kind e on
  | filter x => exact h.filterBy x
  | groupBy xs => exact h.groupBy xs
  | having x => exact h.havingBy x
  | orderBy xs => exact h.orderBy xs
  | insert e xs => exact h.insertInto e xs
  | values row => exact h.valuesRow row
  | valuesRecord record => exact h.valuesRecord record
  | update e => exact h.beginWith .update .update "UPDATE " e
  | set x operation => exact h.setColumn x operation
  | delete e => exact h.beginWith .delete .delete "DELETE FROM " e
  | truncate e => exact h.beginWith .truncate .truncate "TRUNCATE TABLE " e
  | union => exact h.unionWith " UNION "
  | unionAll => exact h.unionWith " UNION ALL "
  | paginate page => exact keeps_modify fun d => h.page d (some page)

theorem makeAll : ∀ calls : List Call, Keeps r (Build.makeAll calls)
  | [] => keeps_pure ()
  | c :: calls => (h.make c).guarded.bind fun _ => makeAll calls

end Draft.HoldsOverSteps

theorem Draft.sameGround_holdsOverSteps : HoldsOverSteps SameGround where
  appends := Appends.sameGround
  write _ _ := ⟨rfl, rfl, rfl, rfl, rfl⟩
  clause _ _ := ⟨rfl, rfl, rfl, rfl, rfl⟩
  selected _ _ := ⟨rfl, rfl, rfl, rfl, rfl⟩
  listPending _ _ := ⟨rfl, rfl, rfl, rfl, rfl⟩
  rowLimit _ _ := ⟨rfl, rfl, rfl, rfl, rfl⟩
  page _ _ := ⟨rfl, rfl, rfl, rfl, rfl⟩
  target _ _ := ⟨rfl, rfl, rfl, rfl, rfl⟩
  closed _ := ⟨rfl, rfl, rfl, rfl, rfl⟩
  condition _ _ _ := ⟨rfl, rfl, rfl, rfl, rfl⟩
  groupCondition _ _ _ := ⟨rfl, rfl, rfl, rfl, rfl⟩
  kind _ _ := ⟨rfl, rfl, rfl, rfl, rfl⟩
  insertColumns _ _ := ⟨rfl, rfl, rfl, rfl, rfl⟩

/-- No call changes the surroundings of a draft. -/
theorem Call.make_ground (c : Call) : Keeps Draft.SameGround (c.make compile) :=
  Draft.sameGround_holdsOverSteps.make c

end Steps

/-- Every call of a run that succeeds is made on the draft that the calls before it leave. -/
theorem Build.makeAll_split {before after : List Call} {c : Call} {d d' : Draft} {u : Unit}
    (given : Gives (makeAll (before ++ c :: after)) d u d') :
    ∃ d₁ d₂, Gives (makeAll before) d () d₁ ∧ Gives (c.make Query.compile) d₁ () d₂ := by
  induction before generalizing d with
  | nil =>
    obtain ⟨_, d₁, first, _⟩ := gives_bind.1 given
    exact ⟨d, d₁, gives_pure.2 ⟨rfl, rfl⟩, (gives_guarded.1 first).2⟩
  | cons b before ih =>
    obtain ⟨_, d₁, first, rest⟩ := gives_bind.1 given
    obtain ⟨d₂, d₃, made, next⟩ := ih rest
    exact ⟨d₂, d₃, gives_bind.2 ⟨(), d₁, first, made⟩, next⟩

end DmlCompiler
