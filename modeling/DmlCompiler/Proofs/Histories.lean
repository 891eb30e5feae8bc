import DmlCompiler.Proofs.Build.Stays
import DmlCompiler.Proofs.Failure
import DmlCompiler.Proofs.Programs

/-! # What a history leaves standing

An invariant that lasts over programs holds behind every history of calls, replays and looks at the
command. What compiles a sub-query works on a draft of its own, and the statement around it takes
over the parameters one by one. -/
namespace DmlCompiler

open Build

variable {registry : Registry} {holds : Draft → Prop}

theorem SubQuery.inline_stays (lasting : Draft.Lasting registry holds) {q : SubQuery}
    (compiled : ∀ p, q = .deferred p → Stays holds p.compile) :
    Stays holds (q.inline Query.compile) := by
  have finished : Stays holds (q.finish Query.compile) := by
    cases q with
    | command c => exact fun d hd => hd
    | deferred p => exact (compiled p rfl).inChild lasting
  refine finished.bind fun c => ?_
  have alone : Program registry Query.compile (fun _ => True) (fun _ => False) c.inline :=
    c.inline_program
  exact alone.stays lasting nofun

theorem Query.compile_stays (lasting : Draft.Lasting registry holds) (q : Query) :
    Stays holds q.compile := by
  induction q using Query.induct with
  | step q ih =>
    have asked : Program registry Query.compile (fun _ => True) (· ∈ q.subQueries) q.compile :=
      q.compile_program (fun _ inside => inside) fun _ _ _ _ _ => trivial
    refine asked.stays lasting fun s inside => s.inline_stays lasting ?_
    rintro p rfl
    exact ih p inside

theorem Build.Program.compiled_stays (lasting : Draft.Lasting registry holds) {α : Type}
    {x : Build α} (program : Program registry Query.compile (fun _ => True) (fun _ => True) x) :
    Stays holds x :=
  program.stays lasting fun q _ => q.inline_stays lasting fun p _ => p.compile_stays lasting

theorem Operation.perform_stays (lasting : Draft.Lasting registry holds) (o : Operation)
    {d : Draft} (hd : holds d) : holds (o.perform d).2 := by
  cases o with
  | call c =>
    have stays : Stays holds (guarded (c.make Query.compile)) :=
      Program.compiled_stays lasting
        (.guarded (c.make_program (fun _ _ => trivial) fun _ _ _ => trivial))
    exact stays hd
  | replay q =>
    have stays : Stays holds (q.replay Query.compile) :=
      Program.compiled_stays lasting
        (q.replay_program (fun _ _ => trivial) fun _ _ _ _ _ => trivial)
    exact stays hd
  | finish =>
    rw [perform]
    cases before : d.failure with
    | some u =>
      rw [Draft.toCommand_failed before]
      exact hd
    | none =>
      rw [Draft.toCommand_healthy before]
      cases d.finished with
      | ok c => exact lasting.congr hd ⟨rfl, rfl, rfl, rfl, rfl⟩
      | error u => exact lasting.congr hd ⟨rfl, rfl, rfl, rfl, rfl⟩

namespace Draft

theorem perform_stays (lasting : Lasting registry holds) : ∀ (history : List Operation) {d : Draft},
    holds d → holds (d.perform history).2
  | [], _, hd => hd
  | o :: history, _, hd => perform_stays lasting history (o.perform_stays lasting hd)

/-- A command is given by the parameters of a draft that has not failed. -/
theorem toCommand_ok {d : Draft} {c : Command} (given : d.toCommand.1 = .ok c) :
    d.failure = none ∧ d.finished = .ok c := by
  cases failed : d.failure with
  | some u =>
    rw [toCommand_failed failed] at given
    cases given
  | none => exact ⟨rfl, (toCommand_eq_finished failed).symm.trans given⟩

end Draft
end DmlCompiler
