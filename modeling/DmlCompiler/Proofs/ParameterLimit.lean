import DmlCompiler.Proofs.Build.Caps
import DmlCompiler.Proofs.Dispatch.Reading
import DmlCompiler.Proofs.Histories
import DmlCompiler.Proofs.Placeholders
import DmlCompiler.Proofs.Rendering.Queries

/-! # The limit on parameters

A run under a limit gives the command that it gives without one, if this has no more parameters than
the limit, and fails for the limit if it has more. The parameters of a recorded sub-query are
counted on its own draft first, and once more when they are added to those of the statement around
it; the second count is never below the first. -/
namespace DmlCompiler

open Build

variable {registry : Registry} {limit : UInt64} {d d' : Draft} {e : QueryError}

theorem Command.inline_caps (positive : limit ≠ 0) (c : Command) :
    Caps registry limit c.inline := by
  have alone : Program registry Query.compile (fun _ => True) (fun _ => False) c.inline :=
    c.inline_program
  exact alone.caps positive nofun

/-- What the child of a recorded sub-query counts is counted again in the statement around it. -/
theorem SubQuery.inline_caps (positive : limit ≠ 0) {q : SubQuery}
    (compiled : ∀ p, q = .deferred p → Caps registry limit p.compile) :
    Caps registry limit (q.inline Query.compile) := by
  cases q with
  | command c => exact c.inline_caps positive
  | deferred p =>
    have compiles : (SubQuery.deferred p).inline Query.compile =
        (inChild p.compile >>= fun c => c.inline) := rfl
    rw [compiles]
    intro d sql d' hd given
    obtain ⟨c, d₁, finished, inlined⟩ := gives_bind.1 given
    obtain ⟨child, made, rfl⟩ := gives_inChild.1 finished
    have below := compiled p rfl (d := d.child) ⟨hd.registry, hd.maximum⟩ made
    have caps : Caps registry limit c.inline := c.inline_caps positive
    have behind := caps (d := { d with cache := child.cache }) ⟨hd.registry, hd.maximum⟩ inlined
    have counted := (Command.inline_binds inlined).2.2.count
    rw [List.length_map, Draft.finished_parameters (Query.compile_gives made)] at counted
    -- The child of the limited draft is the limited child.
    have inside {a : Command} (ran : Gives p.compile (d.child.limitedTo limit) a
        (child.limitedTo limit)) : Gives (inChild p.compile) (d.limitedTo limit) a
          (Draft.limitedTo { d with cache := child.cache } limit) :=
      gives_inChild.2 ⟨_, ran, rfl⟩
    refine ⟨behind.registry, behind.options, behind.grows, fun few => ?_, fun few many => ?_⟩
    · exact gives_bind.2 ⟨c, _, inside (below.within (by omega)), behind.within few⟩
    · by_cases fits : child.parameters.length ≤ limit.toNat
      · obtain ⟨e, failed⟩ := behind.beyond few many
        refine ⟨e, ?_⟩
        rw [run_bind, inside (below.within fits)]
        exact failed
      · obtain ⟨e, failed⟩ := below.beyond (Nat.zero_le _) (Nat.lt_of_not_le fits)
        refine ⟨{ d.limitedTo limit with cache := e.cache }, ?_⟩
        have alone : (d.limitedTo limit).child = d.child.limitedTo limit := rfl
        rw [run_bind, run_inChild, alone, failed]

theorem Query.compile_caps (positive : limit ≠ 0) (q : Query) :
    Caps registry limit q.compile := by
  induction q using Query.induct with
  | step q ih =>
    have asked : Program registry Query.compile (fun _ => True) (· ∈ q.subQueries) q.compile :=
      q.compile_program (fun _ inside => inside) fun _ _ _ _ _ => trivial
    refine asked.caps positive fun s inside => s.inline_caps positive ?_
    rintro p rfl
    exact ih p inside

theorem Build.Program.compiled_caps {α : Type} {x : Build α} (positive : limit ≠ 0)
    (program : Program registry Query.compile (fun _ => True) (fun _ => True) x) :
    Caps registry limit x :=
  program.caps positive fun s _ => s.inline_caps positive fun p _ => p.compile_caps positive

namespace Query

/-- A replay that fails before its last records fails with them. -/
theorem replay_failed_append {before after : List RecordedCall} {page : Option Page}
    (failed : d.replay ⟨before, page⟩ = (.error e, d')) :
    d.replay ⟨before ++ after, page⟩ = (.error e, d') := by
  have split : (before ++ after).forM (·.replay compile) =
      (before.forM (·.replay compile) >>= fun _ => after.forM (·.replay compile)) :=
    List.forM_append
  have whole : Query.replay compile ⟨before ++ after, page⟩ =
      (Query.replay compile ⟨before, page⟩ >>= fun _ => after.forM (·.replay compile)) := by
    simp only [replay, split, bind_assoc]
    rfl
  have ran : (Query.replay compile ⟨before, page⟩).run d = (.error e, d') := failed
  rw [Draft.replay, whole, run_bind, ran]

/-- A replay fails for the limit only where a call does. -/
theorem replay_beyond {q : Query} (failed : d.replay q = (.error (.beyond limit), d')) :
    d'.failure = some (.beyond limit) := by
  refine (replay_failed failed).resolve_right ?_
  rintro ⟨before, c, after, _, _, refused⟩
  obtain ⟨cause, eq⟩ := RecordedCall.failsByMethod_call? _ refused
  cases eq

end Query

/-- The run, which leaves a draft without a failure, tells what it does under the limit. Going
beyond the limit leaves that failure. -/
structure Draft.Foretells {α : Type} (limit : UInt64) (run : Draft → α × Draft) (d : Draft) :
    Prop where
  registry : (run d).2.registry = d.registry
  options : (run d).2.options = d.options
  grows : d.parameters.length ≤ (run d).2.parameters.length
  within : (run d).2.parameters.length ≤ limit.toNat →
    run (d.limitedTo limit) = ((run d).1, (run d).2.limitedTo limit)
  beyond : d.parameters.length ≤ limit.toNat → limit.toNat < (run d).2.parameters.length →
    (run (d.limitedTo limit)).2.failure = some (.beyond limit)

section Foretelling

variable {α β : Type} {a : α} {b : β}

/-- A run that does what the operation does, and keeps the failure of it, is told by it. -/
theorem Build.CapsAt.foretells {x : Build α} {run : Draft → β × Draft}
    (capped : CapsAt limit x d a d') (ran : run d = (b, d'))
    (within : Gives x (d.limitedTo limit) a (d'.limitedTo limit) →
      run (d.limitedTo limit) = (b, d'.limitedTo limit))
    (beyond : ∀ e, x.run (d.limitedTo limit) = (.error (.beyond limit), e) →
      (run (d.limitedTo limit)).2.failure = some (.beyond limit)) :
    Draft.Foretells limit run d := by
  constructor
  · rw [ran]
    exact capped.registry
  · rw [ran]
    exact capped.options
  · rw [ran]
    exact capped.grows
  · intro few
    rw [ran] at few ⊢
    exact within (capped.within few)
  · intro few many
    rw [ran] at many
    obtain ⟨e, failed⟩ := capped.beyond few many
    exact beyond e failed

theorem Draft.Foretells.unlimited {run : Draft → β × Draft} (h : Draft.Foretells limit run d)
    (hd : d.Unlimited registry) : (run d).2.Unlimited registry :=
  ⟨h.registry.trans hd.registry, by rw [h.options, hd.maximum]⟩

end Foretelling

namespace Operation

theorem call_foretells (positive : limit ≠ 0) (c : Call) (hd : d.Unlimited registry)
    (alive : (perform d (.call c)).2.failure = none) :
    Draft.Foretells limit (perform · (.call c)) d := by
  have caps : Caps registry limit (guarded (c.make Query.compile)) :=
    Program.compiled_caps positive
      (.guarded (c.make_program (fun _ _ => trivial) fun _ _ _ => trivial))
  rcases ran : d.call c with ⟨u | _, d₁⟩
  · rw [perform, ran] at alive
    have kept := guarded_failed ran
    rw [alive] at kept
    cases kept
  · refine (caps hd ran).foretells (by rw [perform, ran]) (fun given => ?_) fun e failed => ?_
    · have called : (d.limitedTo limit).call c = (.ok (), d₁.limitedTo limit) := given
      rw [perform, called]
    · have called : (d.limitedTo limit).call c = (.error (.beyond limit), e) := failed
      rw [perform, called]
      exact guarded_failed called

/-- A replay that stops at a record tells what it does as the replay of the records before. -/
theorem replay_foretells (positive : limit ≠ 0) (q : Query) (hd : d.Unlimited registry)
    (alive : (perform d (.replay q)).2.failure = none) :
    Draft.Foretells limit (perform · (.replay q)) d := by
  have caps (q : Query) : Caps registry limit (q.replay Query.compile) :=
    Program.compiled_caps positive
      (q.replay_program (fun _ _ => trivial) fun _ _ _ _ _ => trivial)
  have beyond {e : Draft} (failed : (d.limitedTo limit).replay q = (.error (.beyond limit), e)) :
      (perform (d.limitedTo limit) (.replay q)).2.failure = some (.beyond limit) := by
    rw [perform, failed]
    exact Query.replay_beyond failed
  rcases ran : d.replay q with ⟨u | _, d₁⟩
  · rw [perform, ran] at alive
    rcases Query.replay_failed ran with kept | ⟨before, c, after, eq, given, refused⟩
    · rw [alive] at kept
      cases kept
    obtain ⟨records, page⟩ := q
    obtain rfl : records = before ++ c :: after := eq
    refine (caps ⟨before, page⟩ hd given).foretells (by rw [perform, ran]) (fun given => ?_)
      fun e failed => beyond (Query.replay_failed_append failed)
    have stops : Query.StopsAt ⟨before ++ c :: after, page⟩ (d.limitedTo limit) u
        (d₁.limitedTo limit) := ⟨before, c, after, rfl, given, refused⟩
    rw [perform, stops.replay]
  · refine (caps q hd ran).foretells (by rw [perform, ran]) (fun given => ?_)
      fun e failed => beyond failed
    have replayed : (d.limitedTo limit).replay q = (.ok (), d₁.limitedTo limit) := given
    rw [perform, replayed]

theorem finish_foretells (alive : (perform d .finish).2.failure = none) :
    Draft.Foretells limit (perform · .finish) d := by
  cases before : d.failure with
  | some u =>
    rw [perform, Draft.toCommand_failed before, before] at alive
    cases alive
  | none =>
    have healthy : (d.limitedTo limit).failure = none := before
    cases finished : d.finished with
    | error u =>
      rw [perform, Draft.toCommand_healthy before, finished] at alive
      cases alive
    | ok c =>
      have finished' : (d.limitedTo limit).finished = .ok c := finished
      have ran : perform d .finish = (.ok (some c), d.keeping c) := by
        rw [perform, Draft.toCommand_healthy before, finished]
        rfl
      have ran' : perform (d.limitedTo limit) .finish =
          (.ok (some c), (d.limitedTo limit).keeping c) := by
        rw [perform, Draft.toCommand_healthy healthy, finished']
        rfl
      have kept : CapsAt limit (modify (·.keeping c)) d () (d.keeping c) := .of_same rfl rfl rfl rfl
      refine kept.foretells ran (fun _ => ran') fun e failed => ?_
      have given : Gives (modify (·.keeping c)) (d.limitedTo limit) ⟨⟩ _ := gives_modify.2 rfl
      rw [Gives, failed] at given
      cases given

theorem perform_foretells (positive : limit ≠ 0) (o : Operation) (hd : d.Unlimited registry)
    (alive : (o.perform d).2.failure = none) : Draft.Foretells limit o.perform d := by
  cases o with
  | call c => exact call_foretells positive c hd alive
  | replay q => exact replay_foretells positive q hd alive
  | finish => exact finish_foretells alive

end Operation

namespace Draft

/-- A history that leaves the draft without a failure tells what it does under the limit, step by
step. -/
theorem perform_foretells (positive : limit ≠ 0) : ∀ {history : List Operation} {d : Draft},
    d.Unlimited registry → (d.perform history).2.failure = none →
    Foretells limit (·.perform history) d
  | [], d, _, _ => ⟨rfl, rfl, Nat.le_refl _, fun _ => rfl, fun few many => (many.not_ge few).elim⟩
  | o :: history, d, hd, alive => by
    have first : (o.perform d).2.failure = none := by
      cases failed : (o.perform d).2.failure with
      | none => rfl
      | some u =>
        rw [perform, perform_of_failed failed, failed] at alive
        cases alive
    have step := o.perform_foretells positive hd first
    have rest := perform_foretells positive (step.unlimited hd) alive
    constructor
    · exact rest.registry.trans step.registry
    · exact rest.options.trans step.options
    · exact Nat.le_trans step.grows rest.grows
    · intro few
      dsimp only [perform]
      rw [step.within (Nat.le_trans rest.grows few), rest.within few]
    · intro few many
      by_cases fits : (o.perform d).2.parameters.length ≤ limit.toNat
      · dsimp only [perform]
        rw [step.within fits]
        exact rest.beyond fits many
      · have failed := step.beyond few (Nat.lt_of_not_le fits)
        dsimp only [perform]
        rw [perform_of_failed failed]
        exact failed

/-- The limit is checked before a parameter is added. -/
theorem within_lasting (positive : limit ≠ 0) : Lasting registry (·.Within registry limit) where
  registry hd := hd.registry
  congr hd same := ⟨same.registry.trans hd.registry, by rw [same.options, hd.maximum],
    by rw [same.parameters]; exact hd.count⟩
  addParameter := by
    rintro value type size d ⟨same, rfl, few⟩
    have limited : d.options.maxParameters.toNat ≠ 0 :=
      fun zero => positive (UInt64.toNat_inj.1 zero)
    by_cases full : d.options.maxParameters.toNat ≤ d.parameters.length
    · rw [addParameter_beyond value type size limited full]
      exact ⟨same, rfl, few⟩
    · have room := Nat.lt_of_not_le full
      have counted := (d.gains_bound [⟨value, type, size⟩]).count
      rw [List.length_singleton] at counted
      rw [addParameter_within value type size (.inr room)]
      exact ⟨same, rfl, by rw [counted]; exact room⟩
  fetched _ hd := ⟨hd.registry, hd.maximum, hd.count⟩
  child hd := ⟨hd.registry, hd.maximum, Nat.zero_le _⟩
  returned hd _ := ⟨hd.registry, hd.maximum, hd.count⟩

end Draft

/-- A history of calls, replays and looks at the command, behind which a draft without a limit gives
a command, gives the same command under a limit that is not below the number of its parameters, and
fails for a limit that is. Under a limit no history gives a command with more parameters. -/
theorem parameter_limit_is_exact (dialect : Dialect) (registry : Registry) (options : Options)
    (kept : SelectCache) (history : List Operation) (positive : limit ≠ 0) :
    let answer (maximum : UInt64) := ((Draft.new dialect registry
      { options with maxParameters := maximum } kept).perform history).2.toCommand.1
    (∀ c, answer 0 = .ok c →
      answer limit = if c.parameters.length ≤ limit.toNat then .ok c else .error (.beyond limit)) ∧
    ∀ c, answer limit = .ok c → c.parameters.length ≤ limit.toNat := by
  intro answer
  let fresh := Draft.new dialect registry { options with maxParameters := 0 } kept
  let limited := Draft.new dialect registry { options with maxParameters := limit } kept
  constructor
  · intro c ok
    obtain ⟨alive, finished⟩ := Draft.toCommand_ok ok
    have told : Draft.Foretells limit (·.perform history) fresh :=
      Draft.perform_foretells positive ⟨rfl, rfl⟩ alive
    rw [Draft.finished_parameters finished]
    split
    · next fits =>
      have ran : limited.perform history = _ := told.within fits
      have alive' : ((fresh.perform history).2.limitedTo limit).failure = none := alive
      show (limited.perform history).2.toCommand.1 = .ok c
      rw [ran]
      exact (Draft.toCommand_eq_finished alive').trans finished
    · next exceeds =>
      have failed : (limited.perform history).2.failure = some (.beyond limit) :=
        told.beyond (Nat.zero_le _) (Nat.lt_of_not_le exceeds)
      show (limited.perform history).2.toCommand.1 = _
      rw [Draft.toCommand_failed failed]
  · intro c ok
    obtain ⟨_, finished⟩ := Draft.toCommand_ok ok
    have within : (limited.perform history).2.Within registry limit :=
      Draft.perform_stays (Draft.within_lasting positive) history ⟨rfl, rfl, Nat.zero_le _⟩
    rw [Draft.finished_parameters finished]
    exact within.count

/-- The orders of one amount, or of those of a recorded query that itself is about two values and
the command for the large ones. -/
def nestedAmounts : List Operation :=
  let inner := ordersWhere .isIn
    (.list [.value (.integer 5), .subQuery (.command largeOrders), .value .null])
  let amounts := [.value (.integer 3), .subQuery (.deferred (.ofCalls inner))]
  (ordersWhere .isIn (.list amounts)).map .call

/-- Of four parameters the fourth is one too many for the statement, or the third one for the
recorded query inside of it. -/
theorem parameter_limit_is_exact_nested :
    let answer (maximum : UInt64) := ((Draft.new .standard (.new true)
      { maxParameters := maximum } []).perform nestedAmounts).2.toCommand.1
    (answer 0).map (·.parameters.map (·.value)) =
        .ok [.integer 3, .integer 5, .integer 7, .null] ∧
      answer 4 = answer 0 ∧ answer 3 = .error (.beyond 3) ∧ answer 2 = .error (.beyond 2) := by
  intro answer
  have values : (answer 0).map (·.parameters.map (·.value)) =
      .ok [.integer 3, .integer 5, .integer 7, .null] := by decide +kernel
  refine ⟨values, ?_⟩
  cases ran : answer 0 with
  | error e => simp [ran, Except.map] at values
  | ok c =>
    have count : c.parameters.length = 4 := by
      simpa [ran, Except.map] using congrArg (·.map List.length) values
    have told {limit : UInt64} (positive : limit ≠ 0) :=
      (parameter_limit_is_exact .standard (.new true) {} [] nestedAmounts positive).1 c ran
    refine ⟨?_, ?_, ?_⟩
    · exact (told (by decide)).trans (by rw [count]; rfl)
    · exact (told (by decide)).trans (by rw [count]; rfl)
    · exact (told (by decide)).trans (by rw [count]; rfl)

end DmlCompiler
