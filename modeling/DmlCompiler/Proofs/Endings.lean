import DmlCompiler.Proofs.Comparisons
import DmlCompiler.Proofs.SelectLists
import DmlCompiler.Proofs.Template

/-! # What a command ends with

Row limits and pages are given at any point of a run and are written behind everything else, at the
end of the command. No other call looks at them. So the command of a run is that of its bare calls,
which give none, with a tail: the last row limit, or the last page, and before a page that wants an
order the one of the last block or else one that changes nothing. -/
namespace DmlCompiler

open Build Sql

namespace Draft

variable {d : Draft}

def withEnding (d : Draft) (e : Ending) : Draft := { d with rowLimit := e.1, page := e.2 }

theorem alter_eq_withEnding (d : Draft) (e : Ending) :
    d.alter id (fun _ => e) id = d.withEnding e := d.alter_id _ _

end Draft

namespace Build

variable {α : Type} {x : Build α} {d d' : Draft} {a : α} {e : Ending}

/-- The operation does the same whatever the ending of the draft is, which it leaves as it is. -/
def LeavesEnding (x : Build α) : Prop := ∀ e, Mirrors (·.withEnding e) id x x

theorem LeavesEnding.gives_withEnding (leaves : LeavesEnding x) :
    Gives x (d.withEnding e) a d' ↔ ∃ p, Gives x d a p ∧ d' = p.withEnding e := by
  have mirrored : x.run (d.withEnding e) = _ := leaves e d
  simp only [Gives, mirrored]
  rcases x.run d with ⟨u | b, p⟩
  · constructor
    · intro failed
      cases failed
    · rintro ⟨_, failed, _⟩
      cases failed
  · constructor
    · intro given
      cases given
      exact ⟨p, rfl, rfl⟩
    · rintro ⟨_, given, rfl⟩
      cases given
      rfl

theorem LeavesEnding.ending (leaves : LeavesEnding x) (given : Gives x d a d') :
    d'.ending = d.ending := by
  have self : d.withEnding d.ending = d := rfl
  rw [← self] at given
  obtain ⟨p, _, rfl⟩ := leaves.gives_withEnding.1 given
  rfl

theorem gives_limitRows {limit : UInt64} {u : Unit} :
    Gives (limitRows (some limit)) d u d' ↔
      d.dialect.hasRowLimit = true ∧ d' = d.withEnding (some limit, d.page) := by
  rw [limitRows, gives_get_bind, Dialect.rowLimitClause]
  cases d.dialect.hasRowLimit with
  | true => exact gives_set.trans ⟨fun same => ⟨rfl, same⟩, And.right⟩
  | false => simp

theorem gives_selectBlock {compile : Query → Build Command} {xs : List Expression}
    {distinct : Bool} {limit : UInt64} {u : Unit} :
    Gives (selectBlock compile xs distinct (some limit)) d u d' ↔
      d.dialect.hasRowLimit = true ∧
        Gives (selectBlock compile xs distinct none) (d.withEnding (some limit, d.page)) u d' := by
  constructor
  · intro given
    obtain ⟨_, d₁, expected, afterExpect⟩ := gives_bind.1 given
    obtain ⟨follows, rfl⟩ := expect_gives expected
    obtain ⟨_, d₂, limited, rest⟩ := gives_bind.1 afterExpect
    obtain ⟨available, rfl⟩ := gives_limitRows.1 limited
    have still : Gives (expect .select) (d₁.withEnding (some limit, d₁.page)) () _ :=
      gives_expect follows
    exact ⟨available, gives_bind.2 ⟨(), _, still, gives_bind.2 ⟨(), _, rfl, rest⟩⟩⟩
  · rintro ⟨available, given⟩
    obtain ⟨_, d₁, expected, afterExpect⟩ := gives_bind.1 given
    obtain ⟨follows, rfl⟩ := expect_gives expected
    obtain ⟨_, d₂, unlimited, rest⟩ := gives_bind.1 afterExpect
    obtain ⟨_, rfl⟩ := gives_pure.1 unlimited
    have expected : Gives (expect .select) d () d := gives_expect follows
    have limited : Gives (limitRows (some limit)) d () _ := gives_limitRows.2 ⟨available, rfl⟩
    exact gives_bind.2 ⟨(), d, expected, gives_bind.2 ⟨(), _, limited, rest⟩⟩

end Build

/-- The call without its row limit. Of a page nothing is left. -/
def Call.bare? : Call → Option Call
  | .selectLimit _ => some (.select [])
  | .selectPropertiesLimit xs _ => some (.select xs)
  | .paginate _ => none
  | c => some c

def bareCalls (calls : List Call) : List Call := calls.filterMap Call.bare?

def rowLimits (calls : List Call) : List UInt64 := calls.filterMap Call.limit?

def pages (calls : List Call) : List Page := calls.filterMap Call.page?

namespace Call

variable {c b : Call} {d d' : Draft} {u : Unit}

theorem bare_leavesEnding (bare : c.bare? = some b) : LeavesEnding (b.make Query.compile) := by
  have ends : ∀ e : Ending, b.ends e = e := by
    intro e
    cases c <;> cases bare <;> rfl
  intro e d
  have mirrored := b.make_mirrors (f := id) (g := fun _ => e) (h := id) Query.compilesAlike
    (fun _ => (ends e).symm) d
  rwa [b.mapValues_id, Draft.alter_eq_withEnding, Draft.alter_eq_withEnding] at mirrored

/-- A call that is no page sets its row limit, where there are such, and does what the bare call
does. -/
theorem make_eq_bare (bare : c.bare? = some b) :
    Gives (c.make Query.compile) d u d' ↔
      (c.limit?.isSome → d.dialect.hasRowLimit) ∧
        Gives (b.make Query.compile) (d.withEnding (c.ends d.ending)) u d' := by
  cases c with
  | selectLimit limit | selectPropertiesLimit xs limit =>
    cases bare
    have asked {p : Prop} : p ↔ (true = true → p) := ⟨fun h _ => h, fun h => h rfl⟩
    exact gives_selectBlock.trans (and_congr_left fun _ => asked)
  | paginate page => cases bare
  | _ =>
    cases bare
    exact (and_iff_right nofun).symm

end Call

def endAfter (calls : List Call) (e : Ending) : Ending :=
  ((rowLimits calls).getLast?.or e.1, (pages calls).getLast?.or e.2)

theorem endAfter_cons (c : Call) (calls : List Call) (e : Ending) :
    endAfter (c :: calls) e = endAfter calls (c.ends e) := by
  have last {α : Type} (sets : Call → Option α) (before : Option α) :
      ((c :: calls).filterMap sets).getLast?.or before =
        (calls.filterMap sets).getLast?.or ((sets c).or before) := by
    cases set : sets c with
    | none => simp [set]
    | some a =>
      rw [List.filterMap_cons_some set, List.getLast?_cons]
      cases (calls.filterMap sets).getLast? <;> rfl
  exact congrArg₂ Prod.mk (last Call.limit? e.1) (last Call.page? e.2)

namespace Draft

variable {d d' : Draft} {calls : List Call}

theorem run_bare_leavesEnding (calls : List Call) : LeavesEnding (makeAll (bareCalls calls)) := by
  intro e
  have each : Mirrors (·.withEnding e) id (makeAll (bareCalls calls))
      (makeAll ((bareCalls calls).map id)) := mirrors_forM fun b mem => by
    obtain ⟨c, _, bare⟩ := List.mem_filterMap.1 mem
    exact (Call.bare_leavesEnding bare e).guarded (fun _ => rfl) fun _ _ => rfl
  rwa [List.map_id] at each

/-- What a call does is what the bare call does, if it is one, to the draft with the ending that the
call gives it. -/
theorem call_eq_bare (healthy : d.failure = none) {c : Call} :
    d.call c = (.ok (), d') ↔ (c.limit?.isSome → d.dialect.hasRowLimit = true) ∧
      ∃ p, d.run c.bare?.toList = (.ok (), p) ∧ d' = p.withEnding (c.ends d.ending) := by
  have made {c : Call} {d' : Draft} :
      d.call c = (.ok (), d') ↔ Gives (c.make Query.compile) d () d' :=
    call_gives.trans (and_iff_right healthy)
  rw [made]
  cases bare : c.bare? with
  | none =>
    obtain ⟨page, rfl⟩ : ∃ page, c = .paginate page := by
      cases c <;> first | exact ⟨_, rfl⟩ | cases bare
    constructor
    · intro given
      exact ⟨nofun, d, rfl, gives_modify.1 given⟩
    · rintro ⟨_, p, ran, rfl⟩
      cases ran
      rfl
  | some b =>
    rw [Call.make_eq_bare bare, (Call.bare_leavesEnding bare).gives_withEnding]
    simp only [Option.toList_some, run_one, made]

/-- A run is that of the bare calls, on a draft that then has the last row limit and page. -/
theorem run_eq_bare (healthy : d.failure = none) :
    d.run calls = (.ok (), d') ↔ (rowLimits calls ≠ [] → d.dialect.hasRowLimit = true) ∧
      ∃ p, d.run (bareCalls calls) = (.ok (), p) ∧ d' = p.withEnding (endAfter calls d.ending) := by
  induction calls generalizing d with
  | nil =>
    constructor
    · intro ran
      cases ran
      exact ⟨fun some => (some rfl).elim, _, rfl, rfl⟩
    · rintro ⟨_, p, ran, rfl⟩
      cases ran
      rfl
  | cons c calls ih =>
    have split : bareCalls (c :: calls) = c.bare?.toList ++ bareCalls calls := by
      cases bare : c.bare? <;> simp [bareCalls, bare]
    have limits : rowLimits (c :: calls) ≠ [] ↔ c.limit?.isSome ∨ rowLimits calls ≠ [] := by
      cases limited : c.limit? <;> simp [rowLimits, limited]
    have healthier {p : Draft} (first : d.run c.bare?.toList = (.ok (), p)) :
        (p.withEnding (c.ends d.ending)).failure = none :=
      (sameGround_holdsOverSteps.makeAll _ first).failure.trans healthy
    have same {p : Draft} (first : d.run c.bare?.toList = (.ok (), p)) :
        (p.withEnding (c.ends d.ending)).dialect = d.dialect :=
      (sameGround_holdsOverSteps.makeAll _ first).dialect
    rw [split, limits, endAfter_cons]
    constructor
    · intro ran
      obtain ⟨d₁, called, later⟩ := run_cons_gives.1 ran
      obtain ⟨available, p, first, rfl⟩ := (call_eq_bare healthy).1 called
      obtain ⟨availableLater, q, rest, rfl⟩ := (ih (healthier first)).1 later
      rw [same first] at availableLater
      obtain ⟨q, alone, rfl⟩ := (run_bare_leavesEnding calls).gives_withEnding.1 rest
      refine ⟨fun some => some.elim available availableLater, q, ?_, rfl⟩
      rw [run_append, first]
      exact alone
    · rintro ⟨available, q, ran, rfl⟩
      obtain ⟨p, first, rest⟩ := run_append_gives ran
      have called := (call_eq_bare healthy).2 ⟨fun some => available (.inl some), p, first, rfl⟩
      have later := (ih (healthier first)).2 ⟨fun some => same first ▸ available (.inr some),
        q.withEnding (c.ends d.ending),
        (run_bare_leavesEnding calls).gives_withEnding.2 ⟨q, rest, rfl⟩, rfl⟩
      exact run_cons_gives.2 ⟨_, called, later⟩

theorem build_eq_ok {c : Command} (healthy : d.failure = none) :
    (d.build calls).1 = .ok c ↔ ∃ d', d.run calls = (.ok (), d') ∧ d'.finished = .ok c := by
  constructor
  · exact build_gives
  · rintro ⟨d', ran, finished⟩
    have ground : d.SameGround d' := sameGround_holdsOverSteps.makeAll calls ran
    have finish : Gives finish d' c d' := by
      rw [Gives, run_finish (ground.failure.trans healthy), finished]
    exact congrArg Prod.fst (gives_bind.2 ⟨(), d', ran, finish⟩)

end Draft

/-- What stands behind the clauses: a row limit, or the clause of a page that is not empty, with an
order if there is none yet and the dialect wants one. -/
def Dialect.tail (dialect : Dialect) (isOrdered : Bool) : Ending → String
  | (some limit, _) => Dialect.rowLimit limit
  | (none, some page) => if page.isEmpty then "" else dialect.pageTail (some page) isOrdered
  | (none, none) => ""

namespace Draft

variable {d : Draft}

theorem tail_eq {e : Ending} (apart : e.1 ≠ none → e.2 = none) :
    (d.withEnding e).limitText ++ (d.withEnding e).pageText =
      d.dialect.tail (d.clause = .orderBy) e := by
  rw [pageText_eq]
  rcases e with ⟨_ | limit, _ | page⟩
  · rfl
  · by_cases empty : page.isEmpty
    · simp [limitText, withEnding, Dialect.tail, Dialect.pageTail, empty,
        (d.dialect.pageClause_eq_empty page).2]
    · exact String.empty_append.trans (if_neg empty).symm
  · simp [limitText, withEnding, Dialect.tail, Dialect.pageTail]
  · cases apart (Option.some_ne_none limit)

theorem finished_plain (plain : d.ending = (none, none)) {c : Command} : d.finished = .ok c ↔
    d.clause.isComplete = true ∧ c = ⟨d.name, d.sql.text d.dialect, d.parameters, d.kind, none⟩ := by
  have limit : d.rowLimit = none := congrArg Prod.fst plain
  have page : d.page = none := congrArg Prod.snd plain
  simp [finished_eq_ok, limit, page, limitText, pageText, ofString]

theorem finished_withEnding (plain : d.ending = (none, none)) {e : Ending} {c : Command} :
    (d.withEnding e).finished = .ok c ↔ ∃ bare, d.finished = .ok bare ∧
      (e.1 ≠ none → e.2 = none) ∧ (e.2 ≠ none → bare.kind = .select) ∧
      c = { bare with
        sql := bare.sql ++ d.dialect.tail (d.clause = .orderBy) e
        page := e.2 } := by
  have text (apart : e.1 ≠ none → e.2 = none) :
      ((d.withEnding e).sql ++ ofString (d.withEnding e).limitText ++
        ofString (d.withEnding e).pageText).text d.dialect =
      d.sql.text d.dialect ++ d.dialect.tail (d.clause = .orderBy) e := by
    rw [List.append_assoc, text_append, text_append, text_ofString, text_ofString, tail_eq apart]
    rfl
  have whole {sql sql' : String} (same : sql = sql') :
      (⟨d.name, sql, d.parameters, d.kind, e.2⟩ : Command) =
        ⟨d.name, sql', d.parameters, d.kind, e.2⟩ := by rw [same]
  rw [finished_eq_ok]
  constructor
  · rintro ⟨complete, apart, selects, rfl⟩
    exact ⟨_, (finished_plain plain).2 ⟨complete, rfl⟩, apart, selects, whole (text apart)⟩
  · rintro ⟨_, finished, apart, selects, rfl⟩
    obtain ⟨complete, rfl⟩ := (finished_plain plain).1 finished
    exact ⟨complete, apart, selects, (whole (text apart)).symm⟩

end Draft

theorem clauses_bareCalls (calls : List Call) : clauses (bareCalls calls) = clauses calls := by
  rw [clauses, bareCalls, List.filterMap_filterMap]
  exact List.filterMap_congr fun c _ => by cases c <;> rfl

variable {dialect : Dialect} {registry : Registry} {options : Options} {cache : SelectCache}
  {calls : List Call} {c : Command}

/-- A command is that of the bare calls with a tail. -/
theorem Draft.build_eq_bare : ((new dialect registry options cache).build calls).1 = .ok c ↔
    ∃ bare, ((new dialect registry options cache).build (bareCalls calls)).1 = .ok bare ∧
      (rowLimits calls ≠ [] → dialect.hasRowLimit = true ∧ pages calls = []) ∧
      (pages calls ≠ [] → bare.kind = .select) ∧
      c = { bare with
        sql := bare.sql ++ dialect.tail (.orderBy ∈ clauses calls)
          ((rowLimits calls).getLast?, (pages calls).getLast?)
        page := (pages calls).getLast? } := by
  have ends : endAfter calls (new dialect registry options cache).ending =
      ((rowLimits calls).getLast?, (pages calls).getLast?) := by
    simp [endAfter, ending, new]
  have ordered {p : Draft} (alone : (new dialect registry options cache).run (bareCalls calls) =
      (.ok (), p)) : p.clause = .orderBy ↔ .orderBy ∈ clauses calls := by
    rw [Clause.last_orderBy_iff (run_walk alone), clauses_bareCalls]
    simp [new]
  have plain {p : Draft} (alone : (new dialect registry options cache).run (bareCalls calls) =
      (.ok (), p)) : p.ending = (none, none) := (run_bare_leavesEnding calls).ending alone
  have same {p : Draft} (alone : (new dialect registry options cache).run (bareCalls calls) =
      (.ok (), p)) : p.dialect = dialect := (sameGround_holdsOverSteps.makeAll _ alone).dialect
  have some {α : Type} (as : List α) : as.getLast? ≠ none ↔ as ≠ [] :=
    not_congr List.getLast?_eq_none_iff
  rw [build_eq_ok rfl]
  constructor
  · rintro ⟨d', ran, finished⟩
    obtain ⟨available, p, alone, rfl⟩ := (run_eq_bare rfl).1 ran
    obtain ⟨bare, finishedBare, apart, selects, rfl⟩ :=
      (finished_withEnding (plain alone)).1 finished
    rw [same alone, decide_eq_decide.2 (ordered alone), ends]
    rw [ends] at apart selects
    refine ⟨bare, (build_eq_ok rfl).2 ⟨p, alone, finishedBare⟩, fun limits => ?_, ?_, rfl⟩
    · exact ⟨available limits, List.getLast?_eq_none_iff.1 (apart ((some _).2 limits))⟩
    · exact fun paged => selects ((some _).2 paged)
  · rintro ⟨bare, built, available, selects, rfl⟩
    obtain ⟨p, alone, finished⟩ := (build_eq_ok rfl).1 built
    refine ⟨_, (run_eq_bare rfl).2 ⟨fun limits => (available limits).1, p, alone, rfl⟩, ?_⟩
    refine (finished_withEnding (plain alone)).2 ⟨bare, finished, ?_, ?_, ?_⟩
    · rw [ends]
      exact fun limits => List.getLast?_eq_none_iff.2 (available ((some _).1 limits)).2
    · rw [ends]
      exact fun paged => selects ((some _).1 paged)
    · rw [same alone, decide_eq_decide.2 (ordered alone), ends]

/-- A call that only follows complete statements is made behind one, with which the command begins. -/
theorem Draft.build_split {before after : List Call} {call : Call} {next : Clause}
    (bare : call.bare? = some call) (wrote : call.clause? = some next)
    (closes : ∀ current, next.mayFollow current = true → current.isComplete = true)
    (built : ((new dialect registry options cache).build
      (bareCalls (before ++ call :: after))).1 = .ok c) :
    ∃ p q d' part back, (new dialect registry options cache).run (bareCalls before) = (.ok (), p) ∧
      Gives (call.make Query.compile) p () q ∧ q.run (bareCalls after) = (.ok (), d') ∧
      ((new dialect registry options cache).build (bareCalls before)).1 = .ok part ∧
      part.sql = p.sql.text dialect ∧ c.sql = (q.sql ++ back).text dialect := by
  have split : bareCalls (before ++ call :: after) =
      bareCalls before ++ [call] ++ bareCalls after := by simp [bareCalls, bare]
  rw [split] at built
  obtain ⟨q, made, back, text⟩ := build_append built
  obtain ⟨d', ran, -⟩ := (build_eq_ok rfl).1 built
  obtain ⟨_, again, later⟩ := run_append_gives ran
  cases made.symm.trans again
  obtain ⟨p, earlier, last⟩ := run_append_gives made
  have called := (call_gives.1 (run_one.1 last)).2
  have plain : p.ending = (none, none) := (run_bare_leavesEnding before).ending earlier
  have ground : SameGround (new dialect registry options cache) p :=
    sameGround_holdsOverSteps.makeAll _ earlier
  have same : q.dialect = dialect := (call.make_ground called).dialect.trans ground.dialect
  have finished := (finished_plain plain).2 ⟨closes _ (call.make_follows wrote called), rfl⟩
  have part := (build_eq_ok rfl).2 ⟨p, earlier, finished⟩
  refine ⟨p, q, d', _, back, earlier, called, later, part, ?_, ?_⟩
  · rw [ground.dialect]
    rfl
  · rw [text, same]

end DmlCompiler
