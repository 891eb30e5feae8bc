import DmlCompiler.Proofs.Build.Programs
import DmlCompiler.Proofs.Coupling.Lists

/-! # Options and kept lists exchanged

What a program does depends on options and kept select lists only through the limit on parameters
and the lists that it asks for. Where these stay the same, other options and kept lists may take
their place, and the program does the same, also where it fails. -/
namespace DmlCompiler

/-- Kept lists that may take the place of others, with other options around them, as long as only
the lists of these entities are asked for. -/
structure Exchange (lists : Entity → Prop) (o o' : Options) where
  fits : SelectCache → SelectCache → Prop
  limit : o'.maxParameters = o.maxParameters
  list : ∀ {k k' e}, lists e → fits k k' → o'.listOf k' e = o.listOf k e
  after : ∀ {k k' e}, lists e → fits k k' → fits (o.listsAfter k e) (o'.listsAfter k' e)

/-- The same options on both sides, which keep lists or not. -/
def Exchange.ofFetch {lists : Entity → Prop} (o : Options) (fits : SelectCache → SelectCache → Prop)
    (list : ∀ {k k' e}, lists e → fits k k' → (k'.fetch e).1 = (k.fetch e).1)
    (after : ∀ {k k' e}, lists e → fits k k' → fits (k.fetch e).2 (k'.fetch e).2) :
    Exchange lists o o where
  fits := fits
  limit := rfl
  list := by
    intro k k' e asked h
    unfold Options.listOf
    split
    · exact list asked h
    · rfl
  after := by
    intro k k' e asked h
    unfold Options.listsAfter
    split
    · exact after asked h
    · exact h

variable {lists : Entity → Prop} {o o' : Options} {X : Exchange lists o o'} {registry : Registry}

structure Exchange.Beside (X : Exchange lists o o') (registry : Registry) (d e : Draft) : Prop where
  registry : d.registry = registry
  options : d.options = o
  exchanged : ∃ k, e = d.amid o' k ∧ X.fits d.cache k

namespace Build

variable {α β : Type}

/-- Nobody can tell from the operation which of the two drafts it ran on. -/
def Exchanges (X : Exchange lists o o') (registry : Registry) (x : Build α) : Prop :=
  ∀ ⦃d e : Draft⦄, X.Beside registry d e →
    ∃ result d' e', x.run d = (result, d') ∧ x.run e = (result, e') ∧ X.Beside registry d' e'

theorem exchanges_pure (a : α) : Exchanges X registry (pure a) :=
  fun d e beside => ⟨.ok a, d, e, rfl, rfl, beside⟩

theorem exchanges_throw (u : QueryError) : Exchanges X registry (throw u : Build α) :=
  fun d e beside => ⟨.error u, d, e, rfl, rfl, beside⟩

theorem Exchanges.bind {x : Build α} {f : α → Build β} (hx : Exchanges X registry x)
    (hf : ∀ a, Exchanges X registry (f a)) : Exchanges X registry (x >>= f) := by
  intro d e beside
  obtain ⟨result, d', e', run, run', beside'⟩ := hx beside
  rw [run_bind, run_bind, run, run']
  cases result with
  | error u => exact ⟨.error u, d', e', rfl, rfl, beside'⟩
  | ok a => exact hf a beside'

theorem exchanges_look {f : Draft → Build α}
    (same : ∀ d options cache, f (d.amid options cache) = f d)
    (hf : ∀ d, d.registry = registry → Exchanges X registry (f d)) :
    Exchanges X registry (get >>= f) := by
  intro d e beside
  obtain ⟨k, rfl, _⟩ := beside.exchanged
  rw [run_get_bind, run_get_bind, same]
  exact hf d beside.registry beside

theorem exchanges_change {f : Draft → Draft}
    (apart : ∀ d options cache, f (d.amid options cache) = (f d).amid options cache)
    (same : ∀ d, (f d).registry = d.registry) : Exchanges X registry (modify f) := by
  intro d e beside
  obtain ⟨k, rfl, fits⟩ := beside.exchanged
  obtain ⟨options, cache⟩ := surroundings_of_apart apart d
  refine ⟨.ok ⟨⟩, f d, f (d.amid o' k), rfl, rfl, ?_⟩
  exact ⟨(same d).trans beside.registry, options.trans beside.options, k, apart d o' k,
    by rwa [cache]⟩

theorem exchanges_addParameter (value : SqlValue) (type : Option ColumnType)
    (size : Option UInt32) : Exchanges X registry (addParameter value type size) := by
  intro d e beside
  obtain ⟨k, rfl, fits⟩ := beside.exchanged
  have limit : (d.amid o' k).options.maxParameters = d.options.maxParameters := by
    rw [beside.options]
    exact X.limit
  unfold addParameter
  rw [run_get_bind, run_get_bind]
  simp only [limit, show (d.amid o' k).parameters = d.parameters from rfl]
  split
  · exact ⟨_, _, _, rfl, rfl, beside⟩
  · exact ⟨_, _, _, rfl, rfl, beside.registry, beside.options, k, rfl, fits⟩

theorem exchanges_defaultList {entity : Entity} (asked : lists entity) :
    Exchanges X registry (defaultList entity) := by
  intro d e beside
  obtain ⟨k, rfl, fits⟩ := beside.exchanged
  obtain rfl := beside.options
  have first := defaultList_run entity d
  have second : Gives (defaultList entity) (d.amid o' k) (o'.listOf k entity)
      (d.amid o' (o'.listsAfter k entity)) := defaultList_run entity (d.amid o' k)
  rw [X.list asked fits] at second
  exact ⟨_, _, _, first, second, beside.registry, rfl, _, rfl, X.after asked fits⟩

theorem Exchanges.guarded {x : Build α} (hx : Exchanges X registry x) :
    Exchanges X registry (guarded x) := by
  intro d e beside
  obtain ⟨k, same, _⟩ := beside.exchanged
  cases failure : d.failure with
  | some u =>
    have failure' : e.failure = some u := same ▸ failure
    exact ⟨_, d, e, run_guarded_failed failure, run_guarded_failed failure', beside⟩
  | none =>
    have failure' : e.failure = none := same ▸ failure
    obtain ⟨result, d', e', run, run', beside'⟩ := hx beside
    rw [run_guarded failure, run_guarded failure', run, run']
    cases result with
    | ok a => exact ⟨.ok a, d', e', rfl, rfl, beside'⟩
    | error u =>
      obtain ⟨k', rfl, fits'⟩ := beside'.exchanged
      exact ⟨_, _, _, rfl, rfl, beside'.registry, beside'.options, k', rfl, fits'⟩

/-- Of the child nothing but its kept lists comes back. -/
theorem Exchanges.inChild {x : Build α} (hx : Exchanges X registry x) :
    Exchanges X registry (inChild x) := by
  intro d e beside
  obtain ⟨k, rfl, fits⟩ := beside.exchanged
  have children : X.Beside registry d.child (d.amid o' k).child :=
    ⟨beside.registry, beside.options, k, rfl, fits⟩
  obtain ⟨result, d', e', run, run', beside'⟩ := hx children
  obtain ⟨k', rfl, fits'⟩ := beside'.exchanged
  rw [run_inChild, run_inChild, run, run']
  exact ⟨result, _, _, rfl, rfl, beside.registry, beside.options, k', rfl, fits'⟩

/-- A program that asks for no other lists can be moved to the other draft if its sub-queries
can. -/
theorem Program.exchanges {compile : Query → Build Command} {inlines : SubQuery → Prop}
    (inner : ∀ q, inlines q → Exchanges X registry (q.inline compile)) {x : Build α}
    (program : Program registry compile lists inlines x) : Exchanges X registry x := by
  induction program with
  | pure a => exact exchanges_pure a
  | throw u => exact exchanges_throw u
  | bind _ _ first next => exact first.bind next
  | look same _ next => exact exchanges_look same next
  | change apart surroundings _ => exact exchanges_change apart fun d => (surroundings d).registry
  | addParameter value type size => exact exchanges_addParameter value type size
  | defaultList asked => exact exchanges_defaultList asked
  | inline asked => exact inner _ asked
  | guarded _ inside => exact inside.guarded

end Build
end DmlCompiler
