import DmlCompiler.Proofs.Build.Finishing
import DmlCompiler.Proofs.Grammar
import DmlCompiler.Proofs.Values.Queries

/-! # Finishing is an observation

A draft can be asked for its command at any time, and then be written on. It keeps the command that
it gave, with the row limit and the page in its text, but nothing that is done to it later looks at
this one. -/
namespace DmlCompiler

open Build

namespace Draft

variable {d e : Draft} {last : String × Option Page}

@[simp] theorem withLast_finished (d : Draft) : (d.withLast last).finished = d.finished := rfl

theorem alter_last (d : Draft) : d.alter id id (fun _ => last) = d.withLast last :=
  d.alter_id id fun _ => last

/-- The drafts differ at most in the command that was last finished. -/
def Alike (d e : Draft) : Prop := ∃ last, e = d.withLast last

theorem alike_refl (d : Draft) : d.Alike d := ⟨d.lastFinished, rfl⟩

/-- An operation that does not look at the last command does the same to drafts that are alike. -/
theorem Alike.of_mirrors {α : Type} {x : Build α}
    (mirrors : ∀ last, Mirrors (Draft.alter id id fun _ => last) id x x) (h : d.Alike e) :
    (x.run e).1 = (x.run d).1 ∧ (x.run d).2.Alike (x.run e).2 := by
  obtain ⟨last, rfl⟩ := h
  have ran := mirrors last d
  have same : (x.run d).1.map id = (x.run d).1 := by cases (x.run d).1 <;> rfl
  rw [alter_last, alter_last, same] at ran
  rw [ran]
  exact ⟨rfl, last, rfl⟩

theorem Alike.call (h : d.Alike e) (c : Call) :
    (e.call c).1 = (d.call c).1 ∧ (d.call c).2.Alike (e.call c).2 := by
  apply h.of_mirrors
  intro last
  have made := c.make_mirrors (f := id) (g := id) (h := fun _ => last) Query.compilesAlike
    c.ends_id
  rw [c.mapValues_id] at made
  exact made.guarded (fun _ => rfl) fun _ _ => rfl

theorem Alike.replay (h : d.Alike e) (q : Query) :
    (e.replay q).1 = (d.replay q).1 ∧ (d.replay q).2.Alike (e.replay q).2 := by
  apply h.of_mirrors
  intro last
  have replayed := q.replay_mirrors (f := id) (h := fun _ => last) Query.compilesAlike
  rwa [q.mapValues_id] at replayed

theorem Alike.toCommand (h : d.Alike e) :
    e.toCommand.1 = d.toCommand.1 ∧ d.toCommand.2.Alike e.toCommand.2 := by
  obtain ⟨last, rfl⟩ := h
  cases failed : d.failure with
  | some u =>
    have failed' : (d.withLast last).failure = some u := failed
    rw [toCommand_failed failed, toCommand_failed failed']
    exact ⟨rfl, last, rfl⟩
  | none =>
    have healthy : (d.withLast last).failure = none := failed
    rw [toCommand_healthy failed, toCommand_healthy healthy, withLast_finished]
    cases d.finished with
    | ok c => exact ⟨rfl, alike_refl _⟩
    | error u => exact ⟨rfl, last, rfl⟩

/-- Where a command can be finished the draft keeps it, and is otherwise what it was. -/
theorem toCommand_alike {c : Command} (finished : d.toCommand.1 = .ok c) :
    d.Alike d.toCommand.2 := by
  cases failed : d.failure with
  | some u =>
    rw [toCommand_failed failed] at finished
    cases finished
  | none =>
    rw [toCommand_healthy failed] at finished ⊢
    cases eq : d.finished with
    | ok c => exact ⟨_, rfl⟩
    | error u =>
      rw [eq] at finished
      cases finished

/-- Asking twice gives the same answer, also where the command cannot be finished. -/
theorem toCommand_again (d : Draft) : d.toCommand.2.toCommand.1 = d.toCommand.1 := by
  cases answer : d.toCommand.1 with
  | ok c => rw [(toCommand_alike answer).toCommand.1, answer]
  | error u =>
    cases failed : d.failure with
    | some e =>
      rw [toCommand_failed failed] at answer ⊢
      rw [toCommand_failed failed]
      exact answer
    | none =>
      rw [toCommand_healthy failed] at answer ⊢
      cases eq : d.finished with
      | ok c =>
        rw [eq] at answer
        cases answer
      | error e =>
        rw [eq] at answer
        exact (congrArg Prod.fst (toCommand_failed rfl)).trans answer

end Draft

inductive Operation where
  | call (c : Call)
  | replay (q : Query)
  | finish

abbrev Outcome := Except QueryError (Option Command)

namespace Operation

def perform (d : Draft) : Operation → Outcome × Draft
  | .call c => ((d.call c).1.map fun _ => none, (d.call c).2)
  | .replay q => ((d.replay q).1.map fun _ => none, (d.replay q).2)
  | .finish => (d.toCommand.1.map some, d.toCommand.2)

/-- No operation looks at the command that was last finished. -/
theorem perform_alike {d e : Draft} (h : d.Alike e) (o : Operation) :
    (o.perform e).1 = (o.perform d).1 ∧ (o.perform d).2.Alike (o.perform e).2 := by
  cases o with
  | call c =>
    obtain ⟨same, alike⟩ := h.call c
    simp only [perform, same]
    exact ⟨trivial, alike⟩
  | replay q =>
    obtain ⟨same, alike⟩ := h.replay q
    simp only [perform, same]
    exact ⟨trivial, alike⟩
  | finish =>
    obtain ⟨same, alike⟩ := h.toCommand
    simp only [perform, same]
    exact ⟨trivial, alike⟩

end Operation

inductive Step where
  | made (o : Operation)
  | look

def operations : List Step → List Operation
  | [] => []
  | .made o :: steps => o :: operations steps
  | .look :: steps => operations steps

namespace Draft

def perform (d : Draft) : List Operation → List Outcome × Draft
  | [] => ([], d)
  | o :: os =>
    let rest := (o.perform d).2.perform os
    ((o.perform d).1 :: rest.1, rest.2)

/-- The same with looks in between, without what these answer. -/
def watch (d : Draft) : List Step → List Outcome × Draft
  | [] => ([], d)
  | .made o :: steps =>
    let rest := (o.perform d).2.watch steps
    ((o.perform d).1 :: rest.1, rest.2)
  | .look :: steps => d.toCommand.2.watch steps

/-- Each look finds a command that can be finished. -/
def looksSucceed (d : Draft) : List Step → Bool
  | [] => true
  | .made o :: steps => (o.perform d).2.looksSucceed steps
  | .look :: steps => d.toCommand.1.toOption.isSome && d.toCommand.2.looksSucceed steps

theorem watch_alike {steps : List Step} : ∀ {d e : Draft}, d.Alike e → e.looksSucceed steps →
    (e.watch steps).1 = (d.perform (operations steps)).1 ∧
      (d.perform (operations steps)).2.Alike (e.watch steps).2 := by
  induction steps with
  | nil => exact fun alike _ => ⟨rfl, alike⟩
  | cons step steps ih =>
    intro d e alike succeed
    cases step with
    | made o =>
      obtain ⟨same, alike⟩ := o.perform_alike alike
      obtain ⟨rest, alike⟩ := ih alike succeed
      exact ⟨congrArg₂ List.cons same rest, alike⟩
    | look =>
      obtain ⟨finished, succeed⟩ := Bool.and_eq_true_iff.1 succeed
      obtain ⟨c, answer⟩ : ∃ c, e.toCommand.1 = .ok c := by
        cases answer : e.toCommand.1 with
        | ok c => exact ⟨c, rfl⟩
        | error u => simp [answer, Except.toOption] at finished
      obtain ⟨last, rfl⟩ := alike
      obtain ⟨last', kept⟩ := toCommand_alike answer
      exact ih ⟨last', kept⟩ succeed

end Draft

/-- Looks at the command, wherever it can be finished, change neither the answers of the operations
between them nor the command in the end. Asked twice in a row, a draft answers the same. -/
theorem finishing_is_an_observation {d : Draft} {steps : List Step}
    (succeed : d.looksSucceed steps) :
    (d.watch steps).1 = (d.perform (operations steps)).1 ∧
      (d.watch steps).2.toCommand.1 = (d.perform (operations steps)).2.toCommand.1 ∧
      (d.watch steps).2.toCommand.2.toCommand.1 = (d.watch steps).2.toCommand.1 := by
  obtain ⟨same, alike⟩ := Draft.watch_alike d.alike_refl succeed
  exact ⟨same, alike.toCommand.1, Draft.toCommand_again _⟩

/-- A paged selection of orders that is looked at while its filter and its order are missing, and
again behind a replay that fails. -/
def watchedOrders : List Step :=
  [.made (.call (.select [])), .made (.call (.from orders)), .look,
    .made (.call (.paginate ⟨some 10, some 20⟩)), .look, .look,
    .made (.call (.filter (amount.greaterThan (.integer 7)))), .look,
    .made (.replay ⟨[⟨.from, ["Customer"], []⟩], none⟩), .look,
    .made (.call (.orderBy [amount.sorted .descending])), .made .finish]

/-- The looks leave nothing of the page in the text. -/
theorem finishing_is_an_observation_paged :
    let d := Draft.new .sqlServer (.new true) {} []
    d.looksSucceed watchedOrders ∧
      (d.watch watchedOrders).1 = (d.perform (operations watchedOrders)).1 ∧
      (d.watch watchedOrders).2.toCommand.1 =
        (d.perform (operations watchedOrders)).2.toCommand.1 ∧
      (d.watch watchedOrders).2.toCommand.1.map (·.sql) = .ok
        ("SELECT Orders.OrderID, Orders.Amount FROM Orders WHERE (Orders.Amount > @p1) " ++
          "ORDER BY Orders.Amount DESC OFFSET 20 ROWS FETCH NEXT 10 ROWS ONLY") := by
  intro d
  have succeed : d.looksSucceed watchedOrders := by decide +kernel
  obtain ⟨same, command, _⟩ := finishing_is_an_observation succeed
  exact ⟨succeed, same, command, by decide +kernel⟩

end DmlCompiler
