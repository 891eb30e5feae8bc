import DmlCompiler.Proofs.Build.Runs

/-! # Finishing a command

A finished command holds what the draft holds, and its text is that of the draft with the row limit
or page behind it. Asking a draft for its command changes nothing in it but the command that it
keeps, unless that cannot be finished. -/
namespace DmlCompiler

open Build

variable {d d' : Draft} {c : Command}

/-- A draft is finished where its statement is complete and has an ending that suits it. -/
theorem Draft.finished_eq_ok : d.finished = .ok c ↔ d.clause.isComplete = true ∧
    (d.rowLimit ≠ none → d.page = none) ∧ (d.page ≠ none → d.kind = .select) ∧
    c = ⟨d.name, (d.sql ++ Sql.ofString d.limitText ++ Sql.ofString d.pageText).text d.dialect,
      d.parameters, d.kind, d.page⟩ := by
  unfold finished
  cases d.clause.isComplete with
  | false => simp
  | true =>
    cases d.rowLimit <;> cases d.page <;> by_cases selects : d.kind = .select <;>
      simp [selects, eq_comm]

theorem Draft.finished_eq (h : d.finished = .ok c) : d.clause.isComplete = true ∧
    c = ⟨d.name, (d.sql ++ Sql.ofString d.limitText ++ Sql.ofString d.pageText).text d.dialect,
      d.parameters, d.kind, d.page⟩ :=
  have ⟨complete, _, _, same⟩ := finished_eq_ok.1 h
  ⟨complete, same⟩

theorem Draft.finished_parameters (h : d.finished = .ok c) : c.parameters = d.parameters :=
  congrArg Command.parameters (finished_eq h).2

theorem Build.run_finish (healthy : d.failure = none) : finish.run d =
    match d.finished with
    | .ok c => (.ok c, d)
    | .error e => (.error e, { d with failure := some e }) := by
  rw [finish, run_guarded healthy, run_get_bind]
  cases d.finished <;> rfl

theorem Build.finish_gives (given : Gives finish d c d') : d.finished = .ok c ∧ d' = d := by
  obtain ⟨healthy, _⟩ := gives_guarded.1 given
  unfold Gives at given
  rw [run_finish healthy] at given
  split at given
  · next eq =>
    cases given
    exact ⟨eq, rfl⟩
  · cases given

theorem Draft.build_gives {calls : List Call} (built : (d.build calls).1 = .ok c) :
    ∃ d', Gives (makeAll calls) d () d' ∧ d'.finished = .ok c := by
  have given : Gives (do makeAll calls; finish) d c (d.build calls).2 := Prod.ext built rfl
  obtain ⟨_, d', made, finished⟩ := gives_bind.1 given
  obtain ⟨eq, rfl⟩ := finish_gives finished
  exact ⟨_, made, eq⟩

namespace Draft

def withLast (d : Draft) (last : String × Option Page) : Draft := { d with lastFinished := last }

def keeping (d : Draft) (c : Command) : Draft := d.withLast (c.sql, c.page)

theorem toCommand_failed {e : QueryError} (failed : d.failure = some e) :
    d.toCommand = (.error e, d) := by
  rw [toCommand, finish, run_guarded_failed failed]

theorem toCommand_healthy (healthy : d.failure = none) : d.toCommand =
    match d.finished with
    | .ok c => (.ok c, d.keeping c)
    | .error e => (.error e, { d with failure := some e }) := by
  rw [toCommand, run_finish healthy]
  cases finished : d.finished with
  | error e => rfl
  | ok c =>
    obtain ⟨_, rfl⟩ := finished_eq finished
    rfl

theorem toCommand_eq_finished (healthy : d.failure = none) : d.toCommand.1 = d.finished := by
  rw [toCommand_healthy healthy]
  cases d.finished <;> rfl

end Draft
end DmlCompiler
