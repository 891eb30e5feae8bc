import DmlCompiler.Expression.Fluent
import DmlCompiler.Proofs.Build.Finishing
import DmlCompiler.Proofs.Build.Steps
import DmlCompiler.Proofs.Grammar.Sentences

/-! # The order of calls

A call that is in order moves the draft to its clause, and any other call fails at once; so the
sequences of calls that a builder accepts are the walks of the clause table. They are the
sentences of the grammar, and the sequences that stray from a filtered update or deletion. -/
namespace DmlCompiler

open Build

def Call.clause? : Call → Option Clause
  | .select _ | .selectDistinct _ | .selectLimit _ | .selectPropertiesLimit _ _ => some .select
  | .from _ => some .from
  | .join _ _ _ => some .join
  | .filter _ => some .where
  | .groupBy _ => some .groupBy
  | .having _ => some .having
  | .orderBy _ => some .orderBy
  | .insert _ _ => some .insert
  | .values _ | .valuesRecord _ => some .values
  | .update _ => some .update
  | .set _ _ => some .set
  | .delete _ => some .delete
  | .truncate _ => some .truncate
  | .union | .unionAll => some .union
  | .paginate _ => none

def clauses (calls : List Call) : List Clause := calls.filterMap Call.clause?

theorem clauses_append (before after : List Call) :
    clauses (before ++ after) = clauses before ++ clauses after := List.filterMap_append

section Calls

variable {α β : Type} {clause : Clause} {compile : Query → Build Command}

namespace Build

/-- Where the operation succeeds, the draft stands at the clause. -/
abbrev LeadsTo (clause : Clause) (x : Build α) : Prop := Keeps (fun _ d => d.clause = clause) x

theorem leadsTo_moveTo (clause : Clause) : LeadsTo clause (moveTo clause) :=
  keeps_modify fun _ => rfl

/-- The last operation decides what holds of the draft behind it. -/
theorem Keeps.after {p : Draft → Prop} (x : Build α) {f : α → Build β}
    (hf : ∀ a, Keeps (fun _ d => p d) (f a)) : Keeps (fun _ d => p d) (x >>= f) := by
  intro d b d' given
  obtain ⟨a, _, _, last⟩ := gives_bind.1 given
  exact hf a last

theorem selectBlock_leadsTo (properties : List Expression) (distinct : Bool)
    (limit : Option UInt64) :
    LeadsTo .select (selectBlock compile properties distinct limit) := by
  refine .after _ fun _ => .after _ fun _ => .after _ fun _ => .after _ fun _ => ?_
  exact .after _ fun _ => .after _ fun _ => leadsTo_moveTo .select

theorem fromEntity_leadsTo (e : Entity) : LeadsTo .from (fromEntity e) := by
  refine .after _ fun _ => .after _ fun _ => .after _ fun _ => .after _ fun _ => ?_
  exact .after _ fun _ => leadsTo_moveTo .from

theorem joinEntity_leadsTo (kind : JoinKind) (e : Entity) (on : Option Expression) :
    LeadsTo .join (joinEntity compile kind e on) :=
  .after _ fun _ => .after _ fun _ => .after _ fun _ => .after _ fun _ => leadsTo_moveTo .join

theorem insertInto_leadsTo (e : Entity) (properties : List Expression) :
    LeadsTo .insert (insertInto e properties) := by
  refine .after _ fun _ => .after _ fun _ => .after _ fun _ => .after _ fun _ => ?_
  refine .ite (keeps_throw_bind _ _) (.after _ fun _ => .after _ fun _ => leadsTo_moveTo .insert)

theorem appendRow_leadsTo (row : List SqlValue) : LeadsTo .values (appendRow row) := by
  refine .after _ fun _ => .ite (keeps_throw_bind _ _) ?_
  exact .after _ fun _ => .after _ fun _ => leadsTo_moveTo .values

end Build

namespace Call

theorem make_leadsTo {c : Call} (h : c.clause? = some clause) :
    LeadsTo clause (c.make compile) := by
  cases c <;> cases h
  case select | selectDistinct | selectLimit | selectPropertiesLimit =>
    exact selectBlock_leadsTo _ _ _
  case «from» e => exact fromEntity_leadsTo e
  case join kind e on => exact joinEntity_leadsTo kind e on
  case filter x => exact .after _ fun _ => .after _ fun _ => .after _ fun _ => leadsTo_moveTo _
  case having x => exact .after _ fun _ => .after _ fun _ => .after _ fun _ => leadsTo_moveTo _
  case groupBy xs =>
    exact .after _ fun _ => .after _ fun _ => .after _ fun _ => .after _ fun _ => leadsTo_moveTo _
  case orderBy xs =>
    refine .after _ fun _ => .after _ fun _ => .after _ fun _ => .after _ fun _ => ?_
    exact .after _ fun _ => leadsTo_moveTo _
  case insert e xs => exact insertInto_leadsTo e xs
  case values row => exact .after _ fun _ => appendRow_leadsTo row
  case valuesRecord record =>
    exact .after _ fun _ => .after _ fun _ => .after _ fun _ => appendRow_leadsTo _
  case update | delete | truncate =>
    exact .after _ fun _ => .after _ fun _ => .after _ fun _ => .after _ fun _ => leadsTo_moveTo _
  case set x operation =>
    refine .after _ fun _ => .after _ fun _ => .after _ fun _ => .after _ fun _ => ?_
    exact .after _ fun _ => .after _ fun _ => .after _ fun _ => leadsTo_moveTo _
  case union | unionAll => exact .after _ fun _ => .after _ fun _ => .after _ fun _ => leadsTo_moveTo _

theorem make_expects {c : Call} (h : c.clause? = some clause) :
    ∃ body : Unit → Build Unit, c.make compile = expect clause >>= body := by
  cases c <;> cases h <;> exact ⟨_, rfl⟩

theorem make_follows {c : Call} (h : c.clause? = some clause) {d d' : Draft} {u : Unit}
    (given : Gives (c.make compile) d u d') : clause.mayFollow d.clause = true := by
  obtain ⟨body, eq⟩ : ∃ body, c.make compile = expect clause >>= body := c.make_expects h
  rw [eq] at given
  obtain ⟨_, _, expected, _⟩ := gives_bind.1 given
  exact (expect_gives expected).1

theorem eq_paginate {c : Call} (h : c.clause? = none) : ∃ page, c = .paginate page := by
  cases c <;> first | exact ⟨_, rfl⟩ | cases h

end Call
end Calls

namespace Draft

/-- Every call of the sequence that is made, up to the first failure, succeeds if it is in order. -/
def argumentsPass : Draft → List Call → Bool
  | _, [] => true
  | d, c :: calls =>
    match d.call c with
    | (.ok _, d') => d'.argumentsPass calls
    | (.error _, _) => c.clause?.any fun next => !next.mayFollow d.clause

theorem run_cons (d : Draft) (c : Call) (calls : List Call) :
    d.run (c :: calls) = match d.call c with
      | (.ok _, d') => d'.run calls
      | (.error e, d') => (.error e, d') := by
  have first : makeAll (c :: calls) = guarded (c.make Query.compile) >>= fun _ => makeAll calls := rfl
  rw [run, first, run_bind, call]
  rcases (guarded (c.make Query.compile)).run d with ⟨_ | _, _⟩ <;> rfl

/-- A call that is out of order fails for that reason and nothing else is done. -/
theorem call_outOfOrder {d : Draft} (healthy : d.failure = none) {c : Call} {next : Clause}
    (h : c.clause? = some next) (out : next.mayFollow d.clause = false) :
    d.call c = (.error (.ordering (.cannotFollow next d.clause)),
      { d with failure := some (.ordering (.cannotFollow next d.clause)) }) := by
  obtain ⟨body, eq⟩ : ∃ body, c.make Query.compile = expect next >>= body := c.make_expects h
  have failed : (expect next).run d = (.error (.ordering (.cannotFollow next d.clause)), d) := by
    rw [expect, run_get_bind, out]
    rfl
  rw [call, run_guarded healthy, eq, run_bind, failed]

/-- A call that succeeds leads to its clause, which may follow the one before it. -/
theorem call_walks {d d' : Draft} {c : Call} (given : d.call c = (.ok (), d')) :
    d'.failure = none ∧ d.clause.walk (clauses [c]) = some d'.clause := by
  obtain ⟨healthy, made⟩ := gives_guarded.1 given
  refine ⟨(c.make_ground made).failure.trans healthy, ?_⟩
  cases h : c.clause? with
  | none =>
    obtain ⟨page, rfl⟩ := c.eq_paginate h
    rw [gives_modify.1 made]
    rfl
  | some next =>
    have reached : d'.clause = next := c.make_leadsTo h made
    have allowed : next.mayFollow d.clause = true := c.make_follows h made
    simp [clauses, h, Clause.walk, allowed, reached]

/-- The calls succeed as far as their clauses are a walk, and the first one that leaves it fails
for its order. -/
theorem run_walks {d : Draft} (healthy : d.failure = none) {calls : List Call}
    (passes : d.argumentsPass calls) :
    match d.clause.walk (clauses calls) with
    | some last => ∃ d', d.run calls = (.ok (), d') ∧ d'.failure = none ∧ d'.clause = last
    | none => ∃ cause d', d.run calls = (.error (.ordering cause), d') ∧
        d'.failure = some (.ordering cause) := by
  induction calls generalizing d with
  | nil => exact ⟨d, rfl, healthy, rfl⟩
  | cons c calls ih =>
    have split : clauses (c :: calls) = clauses [c] ++ clauses calls := clauses_append [c] calls
    rw [split, Clause.walk_append, run_cons]
    rw [argumentsPass] at passes
    rcases made : d.call c with ⟨e | u, d'⟩
    · cases h : c.clause? with
      | none => simp [made, h] at passes
      | some next =>
        have out : next.mayFollow d.clause = false := by simpa [made, h] using passes
        have left : d.clause.walk (clauses [c]) = none := by simp [clauses, h, Clause.walk, out]
        rw [call_outOfOrder healthy h out] at made
        cases made
        rw [left]
        exact ⟨_, _, rfl, rfl⟩
    · rw [made] at passes
      obtain ⟨healthy', walked⟩ := call_walks made
      rw [walked]
      exact ih healthy' passes

theorem run_append (d : Draft) (before after : List Call) :
    d.run (before ++ after) = match d.run before with
      | (.ok _, d') => d'.run after
      | (.error e, d') => (.error e, d') := by
  induction before generalizing d with
  | nil => rfl
  | cons c before ih =>
    rw [List.cons_append, run_cons, run_cons]
    rcases d.call c with ⟨e | u, d'⟩
    · rfl
    · exact ih d'

theorem call_gives {d d' : Draft} {c : Call} : d.call c = (.ok (), d') ↔
    d.failure = none ∧ Gives (c.make Query.compile) d () d' := gives_guarded

theorem run_cons_gives {d d' : Draft} {c : Call} {calls : List Call} :
    d.run (c :: calls) = (.ok (), d') ↔
      ∃ d₁, d.call c = (.ok (), d₁) ∧ d₁.run calls = (.ok (), d') := by
  constructor
  · intro ran
    obtain ⟨_, d₁, called, later⟩ := gives_bind.1 (show Gives (makeAll _) d () d' from ran)
    exact ⟨d₁, called, later⟩
  · rintro ⟨d₁, called, later⟩
    exact gives_bind.2 ⟨(), d₁, called, later⟩

theorem run_one {d d' : Draft} {c : Call} : d.run [c] = (.ok (), d') ↔ d.call c = (.ok (), d') := by
  rw [run_cons_gives]
  constructor
  · rintro ⟨_, called, done⟩
    cases done
    exact called
  · exact fun called => ⟨d', called, rfl⟩

theorem run_append_gives {d d' : Draft} {before after : List Call}
    (ran : d.run (before ++ after) = (.ok (), d')) :
    ∃ d₁, d.run before = (.ok (), d₁) ∧ d₁.run after = (.ok (), d') := by
  rw [run_append] at ran
  rcases first : d.run before with ⟨e | u, d₁⟩
  · rw [first] at ran
    cases ran
  · rw [first] at ran
    exact ⟨d₁, rfl, ran⟩

/-- A run that succeeds is a walk. -/
theorem run_walk {d d' : Draft} {calls : List Call} (ran : d.run calls = (.ok (), d')) :
    d.clause.walk (clauses calls) = some d'.clause := by
  induction calls generalizing d with
  | nil =>
    cases ran
    rfl
  | cons c calls ih =>
    obtain ⟨d₁, called, later⟩ := run_cons_gives.1 ran
    have split : clauses (c :: calls) = clauses [c] ++ clauses calls := clauses_append [c] calls
    rw [split, Clause.walk_append, (call_walks called).2]
    exact ih later

theorem argumentsPass_of_append {d : Draft} {before after : List Call}
    (passes : d.argumentsPass (before ++ after)) : d.argumentsPass before := by
  induction before generalizing d with
  | nil => rfl
  | cons c before ih =>
    rw [List.cons_append, argumentsPass] at passes
    rw [argumentsPass]
    rcases made : d.call c with ⟨e | u, d'⟩
    · rwa [made] at passes
    · rw [made] at passes
      exact ih passes

/-- A statement is finished where the table calls it complete; what else is missing then does not
concern the order. -/
theorem toCommand_ordering {d : Draft} (healthy : d.failure = none) :
    (∃ cause, d.toCommand.1 = .error (.ordering cause)) ↔ ¬ d.clause.isComplete := by
  rw [toCommand_eq_finished healthy, Draft.finished]
  cases complete : d.clause.isComplete with
  | false => simp
  | true =>
    simp only [Bool.not_true, Bool.false_eq_true, if_false, not_true, iff_false, not_exists]
    intro cause
    split
    · simp
    · split <;> simp

/-- The builder takes the sequence of calls for a sentence of the language. -/
structure Accepts (L : Language Clause) (d : Draft) (calls : List Call) : Prop where
  succeeds_iff : (d.run calls).1 = .ok () ↔ Clause.Begins L (clauses calls)
  /-- The first call that leaves the language fails for its order. -/
  leaving : ∀ before c after, calls = before ++ c :: after →
    Clause.Begins L (clauses before) → ¬ Clause.Begins L (clauses (before ++ [c])) →
    ∃ d' cause, d.run before = (.ok (), d') ∧ (d'.call c).1 = .error (.ordering cause)
  finishes_iff : (∃ cause, (d.run calls).2.toCommand.1 = .error (.ordering cause)) ↔
    clauses calls ∉ L

/-- A builder accepts what its clause table allows. -/
theorem accepts_allowed {d : Draft} (healthy : d.failure = none) (fresh : d.clause = .start)
    {calls : List Call} (passes : d.argumentsPass calls) : d.Accepts Clause.allowed calls := by
  have ran := run_walks healthy passes
  rw [fresh] at ran
  refine ⟨?_, ?_, ?_⟩
  · rw [Clause.begins_allowed]
    cases walked : Clause.start.walk (clauses calls) with
    | none =>
      rw [walked] at ran
      obtain ⟨cause, d', made, _⟩ := ran
      simp [made]
    | some last =>
      rw [walked] at ran
      obtain ⟨d', made, _⟩ := ran
      simp [made]
  · rintro before c after rfl begins leaves
    obtain ⟨last, walked⟩ := Option.isSome_iff_exists.1 ((Clause.begins_allowed _).1 begins)
    have ran := run_walks healthy (argumentsPass_of_append passes)
    rw [fresh, walked] at ran
    obtain ⟨d', made, healthy', rfl⟩ := ran
    rw [Clause.begins_allowed, clauses_append, Clause.walk_append, walked, Option.bind_some] at leaves
    refine ⟨d', .cannotFollow (c.clause?.getD .start) d'.clause, made, ?_⟩
    cases h : c.clause? with
    | none => simp [clauses, h, Clause.walk] at leaves
    | some next =>
      have out : next.mayFollow d'.clause = false := by
        simpa [clauses, h, Clause.walk] using leaves
      rw [call_outOfOrder healthy' h out]
      rfl
  · show _ ↔ clauses calls ∉ Clause.rest .start
    rw [Clause.mem_rest]
    cases walked : Clause.start.walk (clauses calls) with
    | none =>
      rw [walked] at ran
      obtain ⟨cause, d', made, failed⟩ := ran
      have kept := congrArg Prod.fst (toCommand_failed failed)
      simp [made, kept]
    | some last =>
      rw [walked] at ran
      obtain ⟨d', made, healthy', rfl⟩ := ran
      rw [made, toCommand_ordering healthy']
      simp

/-- Where the clauses of a sequence split, the calls do. -/
theorem split_at {calls : List Call} {a t : List Clause} {n : Clause}
    (eq : clauses calls = a ++ n :: t) : ∃ before c after, calls = before ++ c :: after ∧
      clauses before = a ∧ clauses (before ++ [c]) = a ++ [n] := by
  obtain ⟨first, rest, rfl, wrote, eq⟩ := List.filterMap_eq_append_iff.1 eq
  obtain ⟨pages, c, after, rfl, silent, next, -⟩ := List.filterMap_eq_cons_iff.1 eq
  have before : clauses (first ++ pages) = a := by
    rw [clauses_append]
    exact (congrArg₂ _ wrote (List.filterMap_eq_nil_iff.2 silent)).trans (List.append_nil a)
  refine ⟨first ++ pages, c, after, by simp, before, ?_⟩
  rw [clauses_append, before]
  exact congrArg (a ++ ·) (List.filterMap_cons_some next)

/-- The sequences that it accepts as the grammar does are those that do not stray. -/
theorem accepts_sentences_iff {d : Draft} (healthy : d.failure = none) (fresh : d.clause = .start)
    {calls : List Call} (passes : d.argumentsPass calls) :
    d.Accepts Clause.sentences calls ↔ ∀ s, s <+: clauses calls → s ∉ Clause.strayed := by
  constructor
  · intro accepts s le stray
    obtain ⟨a, n, rfl, sentence, begins⟩ := Clause.strayed_cases stray
    obtain ⟨t, eq⟩ := le
    rw [List.append_assoc, List.singleton_append] at eq
    obtain ⟨before, c, after, rfl, wrote, strays⟩ := split_at eq.symm
    -- the table accepts the stray call, at which the grammar wants a failure
    have left : ¬ Clause.Begins Clause.sentences (clauses (before ++ [c])) := by
      rw [strays]
      exact Clause.not_begins_of_strayed stray
    obtain ⟨d', cause, made, failed⟩ := accepts.leaving before c after rfl
      ⟨[], by rwa [wrote, List.append_nil]⟩ left
    rw [← List.singleton_append, ← List.append_assoc] at passes
    have step : d.argumentsPass (before ++ [c]) := argumentsPass_of_append passes
    have accepted := (accepts_allowed healthy fresh step).succeeds_iff.2 (strays ▸ begins)
    rw [run_append, made] at accepted
    dsimp only at accepted
    rw [run_cons] at accepted
    rcases ran : d'.call c with ⟨e | u, d''⟩
    · simp [ran] at accepted
    · simp [ran] at failed
  · intro straight
    have accepts := accepts_allowed healthy fresh passes
    refine ⟨?_, ?_, ?_⟩
    · rw [accepts.succeeds_iff, Clause.begins_sentences_iff]
      exact (and_iff_left straight).symm
    · rintro before c after rfl begins leaves
      refine accepts.leaving before c after rfl ((Clause.begins_sentences_iff _).1 begins).1 ?_
      intro allowed
      refine leaves ((Clause.begins_sentences_iff _).2 ⟨allowed, fun s le => straight s ?_⟩)
      refine le.trans ⟨clauses after, ?_⟩
      rw [← clauses_append, List.append_assoc, List.singleton_append]
    · rw [accepts.finishes_iff, Clause.mem_sentences_iff]
      exact not_congr (and_iff_left straight).symm

end Draft

/-- A builder whose calls fail for nothing but their order accepts exactly the sequences that its
clause table allows: the sentences of the grammar, and filtered updates and deletions that go on as
selections. It accepts exactly the sentences as long as no such sequence occurs. -/
theorem calls_follow_clause_table (dialect : Dialect) (registry : Registry) (options : Options)
    (cache : SelectCache) (calls : List Call)
    (passes : (Draft.new dialect registry options cache).argumentsPass calls) :
    (Draft.new dialect registry options cache).Accepts Clause.allowed calls ∧
    ((Draft.new dialect registry options cache).Accepts Clause.sentences calls ↔
      ∀ s, s <+: clauses calls → s ∉ Clause.strayed) :=
  ⟨Draft.accepts_allowed rfl rfl passes, Draft.accepts_sentences_iff rfl rfl passes⟩

def orders : Entity where
  name := "Order"
  table := "Orders"
  columns := [⟨"OrderID", "OrderID", .bigInt, none, .all, true⟩,
    ⟨"Amount", "Amount", .decimal, none, .all, false⟩]

def amount : Expression :=
  .bare "Order" "Amount" (some ⟨"Orders", "Amount", .decimal, none, .all⟩)

def lateJoin : List Call :=
  [.select [], .from orders, .filter (amount.greaterThan (.integer 7)), .paginate ⟨some 10, none⟩,
    .join .cross orders none, .orderBy [amount]]

theorem calls_follow_clause_table_late :
    (Draft.new .standard (.new true) {} []).argumentsPass lateJoin ∧
    ((Draft.new .standard (.new true) {} []).run lateJoin).1 =
      .error (.ordering (.cannotFollow .join .where)) ∧
    (Draft.new .standard (.new true) {} []).Accepts Clause.allowed lateJoin := by
  have passes : (Draft.new .standard (.new true) {} []).argumentsPass lateJoin := by
    decide +kernel
  refine ⟨passes, ?_, (calls_follow_clause_table _ _ _ _ _ passes).1⟩
  decide +kernel

def groupedDeletion : List Call :=
  [.delete orders, .filter (amount.greaterThan (.integer 7)), .groupBy [amount]]

/-- A deletion with a GROUP BY is finished, which is no sentence of the grammar. -/
theorem grouped_deletion_accepted :
    (Draft.new .standard (.new true) {} []).argumentsPass groupedDeletion ∧
    ((Draft.new .standard (.new true) {} []).build groupedDeletion).1.map (·.sql) =
      .ok "DELETE FROM Orders WHERE (Orders.Amount > @p1) GROUP BY Orders.Amount" ∧
    ¬ (Draft.new .standard (.new true) {} []).Accepts Clause.sentences groupedDeletion := by
  have passes : (Draft.new .standard (.new true) {} []).argumentsPass groupedDeletion := by
    decide +kernel
  refine ⟨passes, by decide +kernel, ?_⟩
  rw [Draft.accepts_sentences_iff rfl rfl passes]
  intro straight
  have change : [.delete, .where] ∈ Clause.changes * Clause.several .where :=
    Language.mem_mul.2 ⟨[.delete], .inr rfl, [.where], by simp [Clause.several, Language.nil_mem_kstar], rfl⟩
  have stray : [.delete, .where] ++ [.groupBy] ∈ Clause.strayed :=
    Language.append_mem_mul change (.inl (.inl rfl))
  exact straight _ (List.prefix_refl _) stray

end DmlCompiler
