import DmlCompiler.Proofs.Build.Exchange
import DmlCompiler.Proofs.Programs
import DmlCompiler.Proofs.Replay

/-! # Lists that are asked for

Kept lists are asked for in one place, where the list that a select left open is written. So a run
asks only for the lists of the entities that it is about, and of these only where they can be
selected from. -/
namespace DmlCompiler

open Build

/-- Recorded calls name only entities that are known. -/
def Part.Resolves (known : Entity → Prop) (registry : Registry) : Part → Prop
  | .entity name => ∀ e ∈ registry.entity? name, known e
  | _ => True

structure Call.Concerns (known : Entity → Prop) (registry : Registry) (c : Call) : Prop where
  entity : ∀ e ∈ c.entity?, known e
  expressions : ∀ x ∈ c.expressions, ∀ p ∈ x.parts, p.Resolves known registry

variable {known : Entity → Prop} {registry : Registry}

/-- The calls of a query are about what the query is about. -/
theorem Query.concerns_of_calls? {q : Query} {dialect : Dialect} {calls : List Call}
    (resolves : ∀ p ∈ q.parts, p.Resolves known registry)
    (read : q.calls? dialect registry = .ok calls) : ∀ c ∈ calls, c.Concerns known registry := by
  intro c mem
  rcases mem_calls? read mem with ⟨page, rfl⟩ | ⟨record, there, read⟩
  · exact ⟨nofun, nofun⟩
  · obtain ⟨expressions, entity⟩ := RecordedCall.covers_of_call? read
    constructor
    · intro e he
      obtain ⟨name, named, found⟩ := entity e he
      exact resolves _ (record_parts there _ named) e found
    · intro x hx p hp
      have part := RecordedCall.expression_parts (expressions x hx) p hp
      exact resolves p (record_parts there p part)

def Entity.Lists (known : Entity → Prop) (e : Entity) : Prop :=
  known e ∧ e.permissions.allows .select

variable {o o' : Options} {X : Exchange (Entity.Lists known) o o'}

theorem Command.inline_exchanges (c : Command) : Exchanges X registry c.inline := by
  have alone : Program registry Query.compile (Entity.Lists known) (fun _ => False) c.inline :=
    c.inline_program
  exact alone.exchanges nofun

theorem SubQuery.inline_exchanges {q : SubQuery}
    (compiled : ∀ p, q = .deferred p → Exchanges X registry p.compile) :
    Exchanges X registry (q.inline Query.compile) := by
  have finished : Exchanges X registry (q.finish Query.compile) := by
    cases q with
    | command c => exact exchanges_pure c
    | deferred p => exact (compiled p rfl).inChild
  exact finished.bind fun c => c.inline_exchanges

theorem Query.compile_exchanges (q : Query) (resolves : ∀ p ∈ q.parts, p.Resolves known registry) :
    Exchanges X registry q.compile := by
  induction q using Query.induct with
  | step q ih =>
    have asked : Program registry Query.compile (Entity.Lists known) (· ∈ q.subQueries) q.compile :=
      q.compile_program (fun _ inside => inside) fun name named e found selectable =>
        ⟨resolves _ named e found, selectable⟩
    refine asked.exchanges fun s inside => SubQuery.inline_exchanges ?_
    rintro p rfl
    refine ih p inside fun part hp => resolves part (subQuery_parts inside part ?_)
    rwa [SubQuery.parts]

theorem Build.makeAll_exchanges {calls : List Call}
    (concern : ∀ c ∈ calls, c.Concerns known registry) : Exchanges X registry (makeAll calls) := by
  have asked : Program registry Query.compile (Entity.Lists known)
      (fun q => ∃ c ∈ calls, q ∈ c.subQueries) (makeAll calls) :=
    makeAll_program (fun c hc _ inside => ⟨c, hc, inside⟩) fun c hc e he selectable =>
      ⟨(concern c hc).entity e he, selectable⟩
  refine asked.exchanges fun s ⟨c, hc, inside⟩ => SubQuery.inline_exchanges ?_
  rintro p rfl
  obtain ⟨x, hx, inside⟩ := List.mem_flatMap.1 inside
  refine p.compile_exchanges fun part hp => (concern c hc).expressions x hx part ?_
  refine (x.inside_subQuery inside).1 part ?_
  rwa [SubQuery.parts]

end DmlCompiler
