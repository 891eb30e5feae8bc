import DmlCompiler.Proofs.Bindings
import DmlCompiler.Proofs.Build.Programs
import DmlCompiler.Proofs.Coupling.Lists

/-! # Limited operations

What an operation does under a limit on parameters can be told from what it does without one. If it
succeeds and leaves no more parameters than the limit, it does the same under the limit; if it
leaves more, it fails for the limit there. -/
namespace DmlCompiler

namespace Draft

def limitedTo (d : Draft) (limit : UInt64) : Draft :=
  d.amid { d.options with maxParameters := limit } d.cache

structure Unlimited (registry : Registry) (d : Draft) : Prop where
  registry : d.registry = registry
  maximum : d.options.maxParameters = 0

structure Within (registry : Registry) (limit : UInt64) (d : Draft) : Prop where
  registry : d.registry = registry
  maximum : d.options.maxParameters = limit
  count : d.parameters.length ≤ limit.toNat

end Draft

abbrev QueryError.beyond (limit : UInt64) : QueryError :=
  .unsupported (.parameterLimit limit.toNat)

namespace Build

variable {α β : Type} {registry : Registry} {limit : UInt64} {d d₁ d' : Draft} {a : α} {b : β}

theorem addParameter_within (value : SqlValue) (type : Option ColumnType) (size : Option UInt32)
    (room : d.options.maxParameters.toNat = 0 ∨
      d.parameters.length < d.options.maxParameters.toNat) :
    Gives (addParameter value type size) d (d.parameters.length + 1)
      (d.bound [⟨value, type, size⟩]) := by
  unfold addParameter
  rw [gives_get_bind]
  dsimp only
  rw [if_neg (by omega)]
  rfl

theorem addParameter_beyond (value : SqlValue) (type : Option ColumnType) (size : Option UInt32)
    (limited : d.options.maxParameters.toNat ≠ 0)
    (full : d.options.maxParameters.toNat ≤ d.parameters.length) :
    (addParameter value type size).run d = (.error (.beyond d.options.maxParameters), d) := by
  unfold addParameter
  rw [run_get_bind]
  dsimp only
  rw [if_pos ⟨limited, Nat.lt_succ_of_le full⟩]
  rfl

/-- The run without a limit, which gives the result and leaves the second draft, tells what a run
under the limit does. -/
structure CapsAt (limit : UInt64) (x : Build α) (d : Draft) (a : α) (d' : Draft) : Prop where
  registry : d'.registry = d.registry
  options : d'.options = d.options
  grows : d.parameters.length ≤ d'.parameters.length
  within : d'.parameters.length ≤ limit.toNat →
    Gives x (d.limitedTo limit) a (d'.limitedTo limit)
  beyond : d.parameters.length ≤ limit.toNat → limit.toNat < d'.parameters.length →
    ∃ e, x.run (d.limitedTo limit) = (.error (.beyond limit), e)

def Caps (registry : Registry) (limit : UInt64) (x : Build α) : Prop :=
  ∀ ⦃d a d'⦄, d.Unlimited registry → Gives x d a d' → CapsAt limit x d a d'

theorem CapsAt.unlimited {x : Build α} (h : CapsAt limit x d a d')
    (hd : d.Unlimited registry) : d'.Unlimited registry :=
  ⟨h.registry.trans hd.registry, by rw [h.options, hd.maximum]⟩

theorem CapsAt.of_same {x : Build α} (same : d'.registry = d.registry)
    (options : d'.options = d.options) (parameters : d'.parameters = d.parameters)
    (given : Gives x (d.limitedTo limit) a (d'.limitedTo limit)) : CapsAt limit x d a d' where
  registry := same
  options := options
  grows := Nat.le_of_eq (congrArg List.length parameters.symm)
  within _ := given
  beyond few many := by
    rw [parameters] at many
    omega

/-- Where the first operation stays within the limit the second one decides, and where it does not
no later one is made. -/
theorem CapsAt.bind {x : Build α} {f : α → Build β} (first : CapsAt limit x d a d₁)
    (next : CapsAt limit (f a) d₁ b d') : CapsAt limit (x >>= f) d b d' where
  registry := next.registry.trans first.registry
  options := next.options.trans first.options
  grows := Nat.le_trans first.grows next.grows
  within few :=
    gives_bind.2 ⟨a, _, first.within (Nat.le_trans next.grows few), next.within few⟩
  beyond few many := by
    by_cases fits : d₁.parameters.length ≤ limit.toNat
    · obtain ⟨e, failed⟩ := next.beyond fits many
      exact ⟨e, by rw [run_bind, first.within fits]; exact failed⟩
    · obtain ⟨e, failed⟩ := first.beyond few (Nat.lt_of_not_le fits)
      exact ⟨e, by rw [run_bind, failed]⟩

theorem Caps.bind {x : Build α} {f : α → Build β} (hx : Caps registry limit x)
    (hf : ∀ a, Caps registry limit (f a)) : Caps registry limit (x >>= f) := by
  intro d b d' hd given
  obtain ⟨a, d₁, first, second⟩ := gives_bind.1 given
  have capped := hx hd first
  exact capped.bind (hf a (capped.unlimited hd) second)

theorem caps_addParameter (positive : limit ≠ 0) (value : SqlValue) (type : Option ColumnType)
    (size : Option UInt32) : Caps registry limit (addParameter value type size) := by
  intro d number d' hd given
  obtain ⟨rfl, rfl⟩ := addParameter_binds given
  have counted := (d.gains_bound [⟨value, type, size⟩]).count
  rw [List.length_singleton] at counted
  have limited : limit.toNat ≠ 0 := fun zero => positive (UInt64.toNat_inj.1 zero)
  constructor
  · rfl
  · rfl
  · omega
  · intro few
    exact addParameter_within (d := d.limitedTo limit) value type size
      (.inr (show d.parameters.length < limit.toNat by omega))
  · intro _ many
    exact ⟨_, addParameter_beyond (d := d.limitedTo limit) value type size limited
      (show limit.toNat ≤ d.parameters.length by omega)⟩

theorem Caps.guarded {x : Build α} (hx : Caps registry limit x) :
    Caps registry limit (guarded x) := by
  intro d a d' hd given
  obtain ⟨healthy, given⟩ := gives_guarded.1 given
  have capped := hx hd given
  refine ⟨capped.registry, capped.options, capped.grows, fun few => ?_, fun few many => ?_⟩
  · exact gives_guarded.2 ⟨healthy, capped.within few⟩
  · obtain ⟨e, failed⟩ := capped.beyond few many
    exact ⟨{ e with failure := some (.beyond limit) },
      by rw [run_guarded (d := d.limitedTo limit) healthy, failed]⟩

variable {compile : Query → Build Command} {lists : Entity → Prop} {inlines : SubQuery → Prop}

theorem Program.caps (positive : limit ≠ 0)
    (inner : ∀ q, inlines q → Caps registry limit (q.inline compile)) {x : Build α}
    (program : Program registry compile lists inlines x) : Caps registry limit x := by
  induction program with
  | pure a =>
    intro d b d' _ given
    obtain ⟨rfl, rfl⟩ := gives_pure.1 given
    exact .of_same rfl rfl rfl rfl
  | throw e =>
    intro d a d' _ given
    exact (gives_throw.1 given).elim
  | bind _ _ first next => exact first.bind next
  | look same _ next =>
    intro d a d' hd given
    have capped := next d hd.registry hd given
    have read := same d { d.options with maxParameters := limit } d.cache
    refine ⟨capped.registry, capped.options, capped.grows, fun few => ?_, fun few many => ?_⟩
    · rw [gives_get_bind, Draft.limitedTo, read]
      exact capped.within few
    · obtain ⟨e, failed⟩ := capped.beyond few many
      refine ⟨e, ?_⟩
      rw [run_get_bind, Draft.limitedTo, read]
      exact failed
  | @change f apart surroundings parameters =>
    intro d u d' _ given
    obtain rfl := gives_modify.1 given
    obtain ⟨options, cache⟩ := surroundings_of_apart apart d
    refine .of_same (surroundings d).registry options (parameters d) (gives_modify.2 ?_)
    rw [Draft.limitedTo, Draft.limitedTo, apart, options, cache]
  | addParameter value type size => exact caps_addParameter positive value type size
  | @defaultList e _ =>
    intro d list d' _ given
    cases (defaultList_run e d).symm.trans given
    exact .of_same rfl rfl rfl (defaultList_run e (d.limitedTo limit))
  | inline asked => exact inner _ asked
  | guarded _ inside => exact inside.guarded

end Build
end DmlCompiler
