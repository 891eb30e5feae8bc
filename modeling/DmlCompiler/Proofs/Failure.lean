import DmlCompiler.Proofs.Observation
import DmlCompiler.Proofs.Replay

/-! # What a failure leaves

A draft keeps the failure of a call, or of the command that it could not finish, and answers
everything later with it. A replay that comes to a record of no call fails without the draft: what
the records before it wrote stands, and can be finished. -/
namespace DmlCompiler

open Build

variable {d d' : Draft} {e : QueryError}

/-- An operation that a draft guards leaves its failure behind. -/
theorem Build.guarded_failed {α : Type} {x : Build α}
    (failed : (guarded x).run d = (.error e, d')) : d'.failure = some e := by
  cases before : d.failure with
  | some u =>
    rw [run_guarded_failed before] at failed
    cases failed
    exact before
  | none =>
    rw [run_guarded before] at failed
    split at failed
    · cases failed
    · cases failed
      rfl

namespace RecordedCall

theorem replay_run (c : RecordedCall) (d : Draft) : (c.replay Query.compile).run d =
    match c.call? d.dialect d.registry with
    | .ok call => d.call call
    | .error e => (.error e, d) := by
  rw [replay, run_get_bind]
  cases c.call? d.dialect d.registry <;> rfl

def StopsAt (records : List RecordedCall) (d : Draft) (e : QueryError) (d' : Draft) : Prop :=
  ∃ before c after, records = before ++ c :: after ∧
    Gives (before.forM (·.replay Query.compile)) d () d' ∧
    c.call? d'.dialect d'.registry = .error e

variable {records : List RecordedCall}

theorem replayAll_cons (c : RecordedCall) (records : List RecordedCall) (d : Draft) :
    ((c :: records).forM (·.replay Query.compile)).run d =
      match (c.replay Query.compile).run d with
      | (.ok _, d') => (records.forM (·.replay Query.compile)).run d'
      | (.error e, d') => (.error e, d') := by
  have first : (c :: records).forM (·.replay Query.compile) =
      c.replay Query.compile >>= fun _ => records.forM (·.replay Query.compile) := rfl
  rw [first, run_bind]
  rcases (c.replay Query.compile).run d with ⟨_ | _, _⟩ <;> rfl

theorem StopsAt.replayAll (stops : StopsAt records d e d') :
    (records.forM (·.replay Query.compile)).run d = (.error e, d') := by
  obtain ⟨before, c, after, rfl, given, refused⟩ := stops
  have split : (before ++ c :: after).forM (·.replay Query.compile) = (do
      before.forM (·.replay Query.compile)
      (c :: after).forM (·.replay Query.compile)) := List.forM_append
  rw [split, run_bind, given]
  dsimp only
  rw [replayAll_cons, replay_run, refused]

/-- A failure of records in sequence is one of the draft, unless it is that of a record. -/
theorem replayAll_failed (failed : (records.forM (·.replay Query.compile)).run d = (.error e, d')) :
    d'.failure = some e ∨ StopsAt records d e d' := by
  induction records generalizing d with
  | nil => cases failed
  | cons c records ih =>
    rw [replayAll_cons] at failed
    rcases first : (c.replay Query.compile).run d with ⟨u | _, d₁⟩
    · rw [first] at failed
      cases failed
      rw [replay_run] at first
      split at first
      · exact .inl (guarded_failed first)
      · next refused =>
        cases first
        exact .inr ⟨[], c, records, rfl, gives_pure.2 ⟨rfl, rfl⟩, refused⟩
    · rw [first] at failed
      refine (ih failed).imp_right ?_
      rintro ⟨before, c', after, rfl, given, refused⟩
      exact ⟨c :: before, c', after, rfl, gives_bind.2 ⟨(), d₁, first, given⟩, refused⟩

theorem replayAll_of_failed (failed : d.failure = some e) :
    ((records.forM (·.replay Query.compile)).run d).2 = d := by
  cases records with
  | nil => rfl
  | cons c records =>
    rw [replayAll_cons, replay_run]
    cases c.call? d.dialect d.registry with
    | error u => rfl
    | ok call =>
      have refused : d.call call = (.error e, d) := run_guarded_failed failed
      simp only [refused]

end RecordedCall

/-- The replay makes the calls before a record that is no call, and fails for that. -/
def Query.StopsAt (q : Query) (d : Draft) (e : QueryError) (d' : Draft) : Prop :=
  ∃ before c after, q.calls = before ++ c :: after ∧
    d.replay ⟨before, q.page⟩ = (.ok (), d') ∧ c.call? d'.dialect d'.registry = .error e

namespace Query

variable {q : Query}

theorem replay_run (q : Query) (d : Draft) : d.replay q =
    match (q.setPage Query.compile).run d with
    | (.ok _, d') => (q.calls.forM (·.replay Query.compile)).run d'
    | (.error e, d') => (.error e, d') := by
  rw [Draft.replay, replay, run_bind]
  rcases (q.setPage Query.compile).run d with ⟨_ | _, _⟩ <;> rfl

/-- A failed replay leaves its failure in the draft, or else stops at a record. -/
theorem replay_failed (failed : d.replay q = (.error e, d')) :
    d'.failure = some e ∨ q.StopsAt d e d' := by
  rw [replay_run] at failed
  rcases paged : (q.setPage Query.compile).run d with ⟨u | _, d₁⟩
  · rw [paged] at failed
    cases failed
    unfold setPage at paged
    split at paged
    · exact .inl (guarded_failed paged)
    · cases paged
  · rw [paged] at failed
    refine (RecordedCall.replayAll_failed failed).imp_right ?_
    rintro ⟨before, c, after, eq, given, refused⟩
    exact ⟨before, c, after, eq, gives_bind.2 ⟨(), d₁, paged, given⟩, refused⟩

theorem StopsAt.replay (stops : q.StopsAt d e d') : d.replay q = (.error e, d') := by
  obtain ⟨before, c, after, eq, given, refused⟩ := stops
  obtain ⟨_, d₁, paged, given⟩ := gives_bind.1 given
  have ran : (q.setPage Query.compile).run d = (.ok (), d₁) := paged
  rw [replay_run, ran]
  exact RecordedCall.StopsAt.replayAll ⟨before, c, after, eq, given, refused⟩

/-- What is left has failed only if it had before. -/
theorem StopsAt.failure (stops : q.StopsAt d e d') : d'.failure = d.failure := by
  obtain ⟨before, c, after, _, given, _⟩ := stops
  obtain ⟨calls, _, made⟩ := Query.replay_gives ⟨rfl, rfl⟩ given
  exact (keeps_forM (r := Draft.SameGround) (fun c => c.make_ground.guarded) calls made).failure

theorem replay_of_failed (failed : d.failure = some e) : (d.replay q).2 = d := by
  rw [replay_run]
  cases page : q.page with
  | some page' =>
    have refused : (q.setPage Query.compile).run d = (.error e, d) := by
      rw [setPage, page]
      exact run_guarded_failed failed
    rw [refused]
  | none =>
    have unpaged : (q.setPage Query.compile).run d = (.ok (), d) := by
      rw [setPage, page]
      rfl
    rw [unpaged]
    exact RecordedCall.replayAll_of_failed failed

end Query

namespace Operation

def isDirect : Operation → Bool
  | .call _ | .finish => true
  | .replay _ => false

def StopsAt (d : Draft) (e : QueryError) (d' : Draft) : Operation → Prop
  | .replay q => q.StopsAt d e d'
  | .call _ | .finish => False

theorem perform_of_failed (o : Operation) (failed : d.failure = some e) : (o.perform d).2 = d := by
  cases o with
  | call c =>
    have refused : d.call c = (.error e, d) := run_guarded_failed failed
    rw [perform, refused]
  | replay q => exact Query.replay_of_failed failed
  | finish => exact congrArg Prod.snd (Draft.toCommand_failed failed)

theorem perform_direct {o : Operation} (direct : o.isDirect = true) (failed : d.failure = some e) :
    (o.perform d).1 = .error e := by
  cases o with
  | call c =>
    have answer : (d.call c).1 = .error e := congrArg Prod.fst (run_guarded_failed failed)
    rw [perform, answer]
    rfl
  | replay q => cases direct
  | finish =>
    rw [perform, Draft.toCommand_failed failed]
    rfl

/-- An operation that fails leaves its failure in the draft, unless it stops at a record. -/
theorem perform_failed {o : Operation} (failed : (o.perform d).1 = .error e) :
    (o.perform d).2.failure = some e ∨ o.StopsAt d e (o.perform d).2 := by
  cases o with
  | call c =>
    left
    rcases ran : d.call c with ⟨u | _, d₁⟩
    · simp only [perform, ran, Except.map] at failed ⊢
      cases failed
      exact guarded_failed ran
    · simp [perform, ran, Except.map] at failed
  | replay q =>
    rcases ran : d.replay q with ⟨u | _, d₁⟩
    · simp only [perform, ran, Except.map] at failed ⊢
      cases failed
      exact Query.replay_failed ran
    · simp [perform, ran, Except.map] at failed
  | finish =>
    left
    cases before : d.failure with
    | some u =>
      rw [perform, Draft.toCommand_failed before] at failed ⊢
      cases failed
      exact before
    | none =>
      rw [perform, Draft.toCommand_healthy before] at failed ⊢
      cases finished : d.finished with
      | ok c => simp [finished, Except.map] at failed
      | error u =>
        simp only [finished, Except.map] at failed ⊢
        cases failed
        rfl

end Operation

namespace Draft

/-- Whatever is done to the draft, later calls, and the finishing of the command, answer so. -/
def Answers (d : Draft) (e : QueryError) : Prop :=
  ∀ (later : List Operation) (o : Operation), o.isDirect = true →
    (o.perform (d.perform later).2).1 = .error e

theorem perform_of_failed (failed : d.failure = some e) :
    ∀ later : List Operation, (d.perform later).2 = d
  | [] => rfl
  | o :: later => by
    rw [perform, o.perform_of_failed failed]
    exact perform_of_failed failed later

/-- A draft answers with a failure if and only if it keeps it. -/
theorem answers_iff : d.Answers e ↔ d.failure = some e := by
  constructor
  · intro answers
    have page := answers [] (.call (.paginate ⟨none, none⟩)) rfl
    cases failed : d.failure with
    | some u =>
      rw [perform, Operation.perform_direct rfl failed] at page
      cases page
      rfl
    | none =>
      have paged : (d.call (.paginate ⟨none, none⟩)).1 = .ok () := by
        rw [Draft.call, run_guarded failed]
        rfl
      rw [perform, Operation.perform, paged] at page
      cases page
  · intro failed later o direct
    rw [perform_of_failed failed later]
    exact Operation.perform_direct direct failed

end Draft

/-- After an operation has failed, the draft answers everything later with that failure, unless the
operation was a replay that stopped at a record of no call. Such a replay leaves what the calls
before that record write, and a draft that answers with the failure only if it did before. -/
theorem failures_are_kept {o : Operation} (failed : (o.perform d).1 = .error e) :
    ((o.perform d).2.Answers e ↔ d.failure = some e ∨ ¬ o.StopsAt d e (o.perform d).2) ∧
      ∀ q : Query, o = .replay q → ∀ d', q.StopsAt d e d' → (o.perform d).2 = d' := by
  constructor
  · rw [Draft.answers_iff]
    constructor
    · intro kept
      by_cases stops : o.StopsAt d e (o.perform d).2
      · left
        cases o with
        | replay q => exact (Query.StopsAt.failure stops).symm.trans kept
        | call c => exact stops.elim
        | finish => exact stops.elim
      · exact .inr stops
    · rintro (before | through)
      · rwa [o.perform_of_failed before]
      · exact (Operation.perform_failed failed).resolve_right through
  · rintro q rfl d' stops
    exact congrArg Prod.snd stops.replay

def haltedDeletion : Query := ⟨[⟨.delete, ["Order"], []⟩, ⟨.filter, [], [.limit 1]⟩], none⟩

def haltedFailure : QueryError := .methodResolution .filter (.wrongArgument 0 .predicate .limit)

def orderRegistry : Registry := (Registry.new true).replacing orders

/-- A call fails for its order, and then everything does. -/
theorem failures_are_kept_outOfOrder :
    let d := Draft.new .standard orderRegistry {} []
    let o : Operation := .call (.having amount)
    let e : QueryError := .ordering (.cannotFollow .having .start)
    (o.perform d).1 = .error e ∧ (o.perform d).2.Answers e := by
  intro d o e
  have failed : (o.perform d).1 = .error e := rfl
  exact ⟨failed, (failures_are_kept failed).1.2 (.inr id)⟩

/-- The replay fails at the second record, and the draft finishes the deletion of all orders. -/
theorem halted_replay_leaves_deletion :
    let d := Draft.new .standard orderRegistry {} []
    let o : Operation := .replay haltedDeletion
    (o.perform d).1 = .error haltedFailure ∧
      ¬ (o.perform d).2.Answers haltedFailure ∧
      (o.perform d).2.toCommand.1.map (·.sql) = .ok "DELETE FROM Orders" := by
  intro d o
  refine ⟨rfl, ?_, by decide +kernel⟩
  rw [Draft.answers_iff]
  exact nofun

end DmlCompiler
